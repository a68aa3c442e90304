import Mathlib

/-!
# Machines driven by events

A `Machine` starts in one state and answers each event with a new state and an output. Which event
may come next is a condition `ok` on the events so far, so a promise of the environment (an
identifier is used once, say) is a condition on the history and not a field of the state.

`Runs h o s` says that the events `h` are allowed, produce the outputs `o` and lead to `s`. Runs are
built at the end, so an invariant is proved by induction on `Runs` with one step lemma, and may
mention the whole history. `exec` computes a run, and `Runs.of_exec` turns a computation into a run.
-/

namespace Gambit.Lib

/-- A deterministic machine with outputs, and the events allowed after a history. -/
structure Machine (σ ε ω : Type*) where
  init : σ
  next : σ → ε → σ × ω
  ok : List ε → ε → Prop

namespace Machine
variable {σ σ' ε ω ω' : Type*} (M : Machine σ ε ω)

/-- The runs of a machine: events, outputs and last state. -/
inductive Runs : List ε → List ω → σ → Prop where
  | init : Runs [] [] M.init
  | step {h o s e} :
    Runs h o s →
    M.ok h e →
    Runs (h ++ [e]) (o ++ [(M.next s e).2]) (M.next s e).1

/-- The outputs and the last state of a list of events, computed. -/
def exec (h : List ε) : List ω × σ :=
  h.foldl (fun p e => (p.1 ++ [(M.next p.2 e).2], (M.next p.2 e).1)) ([], M.init)

/-- Every event of the list is allowed after the ones before it. -/
def OkFrom (h : List ε) : List ε → Prop
  | [] => True
  | e :: es => M.ok h e ∧ OkFrom (h ++ [e]) es

instance decidableOkFrom [inst : ∀ h e, Decidable (M.ok h e)] :
    (h es : List ε) → Decidable (M.OkFrom h es)
  | _, [] => .isTrue trivial
  | h, e :: es =>
    have := decidableOkFrom (h ++ [e]) es
    inferInstanceAs (Decidable (M.ok h e ∧ M.OkFrom (h ++ [e]) es))

/-- `C` holds of every event of the list and the state it meets, from `s` on. -/
def AlongFrom (C : σ → ε → Prop) (s : σ) : List ε → Prop
  | [] => True
  | e :: es => C s e ∧ AlongFrom C (M.next s e).1 es

/-- `C` holds of every event of the list and the state it meets. -/
def Along (C : σ → ε → Prop) (h : List ε) : Prop := M.AlongFrom C M.init h

instance decidableAlongFrom {C : σ → ε → Prop} [inst : ∀ s e, Decidable (C s e)] :
    (s : σ) → (h : List ε) → Decidable (M.AlongFrom C s h)
  | _, [] => .isTrue trivial
  | s, e :: es => @instDecidableAnd _ _ (inst s e) (decidableAlongFrom (M.next s e).1 es)

instance {C : σ → ε → Prop} [∀ s e, Decidable (C s e)] (h : List ε) : Decidable (M.Along C h) :=
  inferInstanceAs (Decidable (M.AlongFrom C M.init h))

variable {M}

/-- A computation of allowed events is a run. -/
lemma Runs.of_exec {es : List ε} (ok : M.OkFrom [] es) : M.Runs es (M.exec es).1 (M.exec es).2 := by
  suffices H : ∀ (es h : List ε) (p : List ω × σ), M.Runs h p.1 p.2 → M.OkFrom h es →
      M.Runs (h ++ es)
        (es.foldl (fun p e => (p.1 ++ [(M.next p.2 e).2], (M.next p.2 e).1)) p).1
        (es.foldl (fun p e => (p.1 ++ [(M.next p.2 e).2], (M.next p.2 e).1)) p).2 by
    simpa [exec] using H es [] ([], M.init) .init ok
  intro es
  induction es with
  | nil => intro h p run _; simpa using run
  | cons e es ih =>
    intro h p run ok
    have run' := ih (h ++ [e]) (p.1 ++ [(M.next p.2 e).2], (M.next p.2 e).1) (run.step ok.1) ok.2
    simpa using run'

/-- A run is the computation of its events. -/
lemma Runs.eq_exec {h : List ε} {o : List ω} {s : σ} (run : M.Runs h o s) : M.exec h = (o, s) := by
  induction run with
  | init => rfl
  | step _ _ ih =>
    simp only [exec] at ih ⊢
    rw [List.foldl_append, ih]
    rfl

/-- A run produces one output per event. -/
lemma Runs.length_eq {h : List ε} {o : List ω} {s : σ} (run : M.Runs h o s) :
    o.length = h.length := by
  induction run with
  | init => rfl
  | step _ _ ih => simp [ih]

/-- Two runs of the same events end in the same state. -/
lemma Runs.unique {h : List ε} {o o' : List ω} {s s' : σ} (run : M.Runs h o s)
    (run' : M.Runs h o' s') : s = s' := by
  have he := run.eq_exec.symm.trans run'.eq_exec
  exact congrArg Prod.snd he

/-- A run extends the outputs of the runs it begins with. -/
lemma Runs.outputs_prefix {h h' : List ε} {o o' : List ω} {s s' : σ} (run : M.Runs h o s)
    (run' : M.Runs h' o' s') (hpre : h' <+: h) : o' <+: o := by
  induction run with
  | init =>
    obtain rfl := List.prefix_nil.1 hpre
    rw [List.length_eq_zero_iff.1 run'.length_eq]
  | @step h o s e run hok ih =>
    rcases List.prefix_concat_iff.1 hpre with rfl | hpre
    · have he := (run.step hok).eq_exec.symm.trans run'.eq_exec
      have ho : o ++ [(M.next s e).2] = o' := congrArg Prod.fst he
      rw [ho]
    · exact (ih hpre).trans (List.prefix_append _ _)

/-- A condition holds along a run if it holds before and at its last event. -/
lemma Runs.along_concat_iff {C : σ → ε → Prop} {h : List ε} {o : List ω} {s : σ} {e : ε}
    (run : M.Runs h o s) : M.Along C (h ++ [e]) ↔ M.Along C h ∧ C s e := by
  have split : ∀ (l : List ε) (s : σ), M.AlongFrom C s (l ++ [e]) ↔
      M.AlongFrom C s l ∧ C (l.foldl (fun s e => (M.next s e).1) s) e := by
    intro l
    induction l with
    | nil => exact fun s => ⟨fun h => ⟨trivial, h.1⟩, fun h => ⟨h.2, trivial⟩⟩
    | cons a l ih =>
      intro s
      have hrest := ih (M.next s a).1
      exact ⟨fun h => ⟨⟨h.1, (hrest.1 h.2).1⟩, (hrest.1 h.2).2⟩, fun h => ⟨h.1.1, hrest.2 ⟨h.1.2, h.2⟩⟩⟩
  have last : ∀ (l : List ε) (p : List ω × σ),
      (l.foldl (fun p e => (p.1 ++ [(M.next p.2 e).2], (M.next p.2 e).1)) p).2 =
        l.foldl (fun s e => (M.next s e).1) p.2 := by
    intro l
    induction l with
    | nil => exact fun _ => rfl
    | cons a l ih => exact fun p => ih _
  have hs : (M.exec h).2 = s := by rw [run.eq_exec]
  rw [exec, last] at hs
  rw [Along, split, hs]
  rfl

/-- A condition along a run holds at its last event. -/
lemma Runs.along_concat {C : σ → ε → Prop} {h : List ε} {o : List ω} {s : σ} {e : ε}
    (run : M.Runs h o s) (hc : M.Along C (h ++ [e])) : M.Along C h ∧ C s e :=
  run.along_concat_iff.1 hc

/-- A weaker condition holds along a run too. -/
lemma Along.mono {C D : σ → ε → Prop} {h : List ε} (hc : M.Along C h) (hd : ∀ s e, C s e → D s e) :
    M.Along D h := by
  have from_mono : ∀ (l : List ε) (s : σ), M.AlongFrom C s l → M.AlongFrom D s l := by
    intro l
    induction l with
    | nil => exact fun _ _ => trivial
    | cons a l ih => exact fun s h => ⟨hd s a h.1, ih _ h.2⟩
  exact from_mono h M.init hc

/-- The last event of a run. -/
lemma Runs.concat {h : List ε} {o : List ω} {s : σ} {e : ε} (run : M.Runs (h ++ [e]) o s) :
    ∃ o' s', M.Runs h o' s' ∧ M.ok h e ∧ s = (M.next s' e).1 ∧ o = o' ++ [(M.next s' e).2] := by
  generalize hk : h ++ [e] = k at run
  cases run with
  | init => simp at hk
  | step run hok =>
    obtain ⟨rfl, he⟩ := List.append_inj' hk rfl
    cases he
    exact ⟨_, _, run, hok, rfl, rfl⟩

/-- What the events of a continuation keep holds after it. -/
lemma Runs.continue {P : σ → Prop} {h h' : List ε} {o o' : List ω} {s s' : σ}
    (run : M.Runs h o s) (run' : M.Runs (h ++ h') o' s') (hs : P s)
    (step : ∀ {k o t e}, M.Runs k o t → M.ok k e → e ∈ h' → P t → P (M.next t e).1) : P s' := by
  suffices H : ∀ l, l <+: h' → ∀ o' s', M.Runs (h ++ l) o' s' → P s' from
    H h' List.prefix_rfl o' s' run'
  intro l
  induction l using List.reverseRecOn with
  | nil =>
    intro _ o' s' run'
    rw [List.append_nil] at run'
    rw [← run.unique run']
    exact hs
  | append_singleton l e ih =>
    intro hl o' s' run'
    rw [← List.append_assoc] at run'
    obtain ⟨o1, s1, run1, hok, rfl, -⟩ := run'.concat
    refine step run1 hok (hl.subset (by simp)) (ih ?_ o1 s1 run1)
    exact (List.prefix_append l [e]).trans hl

/-- What every step of a run keeps holds between an earlier state and a later one. -/
lemma Runs.relate {R : σ → σ → Prop} {h h' : List ε} {o o' : List ω} {s s' : σ}
    (run : M.Runs h o s) (run' : M.Runs h' o' s') (hpre : h' <+: h) (refl : ∀ s, R s s)
    (trans : ∀ {a b c}, R a b → R b c → R a c)
    (step : ∀ {h o s e}, M.Runs h o s → M.ok h e → R s (M.next s e).1) : R s' s := by
  induction run with
  | init =>
    have hnil := List.prefix_nil.1 hpre
    subst hnil
    rw [run'.unique .init]
    exact refl _
  | step run hok ih =>
    rcases List.prefix_concat_iff.1 hpre with rfl | hpre
    · rw [run'.unique (run.step hok)]
      exact refl _
    · exact trans (ih hpre) (step run hok)

end Machine
end Gambit.Lib
