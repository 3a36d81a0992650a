import Mathlib.Logic.Basic
import Mathlib.Data.List.Basic
import Mathlib.Tactic.TypeStar

/-!
# Runs of labelled partial transitions

A system is a partial function `step : σ → α → Option σ` from states and labels. A `Run` is
a finite sequence of labels with the states between them, where every label and the state
it is taken in satisfy a condition `C`: an assumption about the environment (no crash, no
operator request) or a bound on the inputs is such a condition, and `Any` is the absence of one.

Invariants over runs come from step lemmas by `Run.invariant`. Concrete runs come from
`check`, which executes a label list and tests the condition on the way.
-/

namespace Lts

variable {σ α : Type*}

/-- No condition on the steps. -/
def Any (_ : σ) (_ : α) : Prop := True

/-- A finite run from `s` to `s'` whose every step satisfies `C` in the state it is taken in. -/
inductive Run (step : σ → α → Option σ) (C : σ → α → Prop) : σ → List α → σ → Prop where
  | nil (s : σ) : Run step C s [] s
  | cons {s s' s'' : σ} {a : α} {as : List α} :
      C s a → step s a = some s' → Run step C s' as s'' → Run step C s (a :: as) s''

/-- `s` is the end of some run from `init`. -/
def Reachable (step : σ → α → Option σ) (C : σ → α → Prop) (init s : σ) : Prop :=
  ∃ as, Run step C init as s

variable {step : σ → α → Option σ} {C D : σ → α → Prop}

namespace Run

theorem single {s s' : σ} {a : α} (hc : C s a) (h : step s a = some s') : Run step C s [a] s' :=
  .cons hc h (.nil s')

theorem append {s s' s'' : σ} {as bs : List α} (h : Run step C s as s') (h' : Run step C s' bs s'') :
    Run step C s (as ++ bs) s'' := by
  induction h with
  | nil => exact h'
  | cons hc hs _ ih => exact .cons hc hs (ih h')

theorem snoc {s s' s'' : σ} {as : List α} {a : α} (h : Run step C s as s') (hc : C s' a)
    (hs : step s' a = some s'') : Run step C s (as ++ [a]) s'' :=
  h.append (.single hc hs)

/-- The last step of a run is one that its condition admits. -/
theorem admits_last {s s' s'' : σ} {as : List α} {a : α} (h : Run step C s (as ++ [a]) s'')
    (h' : Run step D s as s') : C s' a := by
  induction h' with
  | nil =>
    cases h with
    | cons hc _ _ => exact hc
  | cons _ hs _ ih =>
    cases h with
    | cons _ hs' rest =>
      cases hs.symm.trans hs'
      exact ih rest

/-- A weaker condition admits more runs. -/
theorem mono (hCD : ∀ s a, C s a → D s a) {s s' : σ} {as : List α} (h : Run step C s as s') :
    Run step D s as s' := by
  induction h with
  | nil => exact .nil _
  | cons hc hs _ ih => exact .cons (hCD _ _ hc) hs ih

theorem any {s s' : σ} {as : List α} (h : Run step C s as s') : Run step Any s as s' :=
  h.mono fun _ _ _ => trivial

/-- The invariant rule: what every admitted step preserves holds at the end of every run. -/
theorem invariant {I : σ → Prop} (hI : ∀ s a s', I s → C s a → step s a = some s' → I s')
    {s s' : σ} {as : List α} (h : Run step C s as s') (h0 : I s) : I s' := by
  induction h with
  | nil => exact h0
  | cons hc hs _ ih => exact ih (hI _ _ _ h0 hc hs)

end Run

/-- The invariant rule for reachable states. -/
theorem Reachable.invariant {I : σ → Prop}
    (hI : ∀ s a s', I s → C s a → step s a = some s' → I s') {init s : σ}
    (h : Reachable step C init s) (h0 : I init) : I s :=
  h.elim fun _ hr => hr.invariant hI h0

theorem Reachable.refl (s : σ) : Reachable step C s s := ⟨[], .nil s⟩

theorem Reachable.next {init s s' : σ} {a : α} (h : Reachable step C init s) (hc : C s a)
    (hs : step s a = some s') : Reachable step C init s' :=
  h.elim fun as hr => ⟨as ++ [a], hr.snoc hc hs⟩

theorem Reachable.mono (hCD : ∀ s a, C s a → D s a) {init s : σ} (h : Reachable step C init s) :
    Reachable step D init s :=
  h.elim fun as hr => ⟨as, hr.mono hCD⟩

theorem Reachable.any {init s : σ} (h : Reachable step C init s) : Reachable step Any init s :=
  h.mono fun _ _ _ => trivial

theorem Run.reachable {init s s' : σ} {as : List α} (h : Reachable step C init s)
    (hr : Run step C s as s') : Reachable step C init s' :=
  h.elim fun bs hb => ⟨bs ++ as, hb.append hr⟩

theorem Reachable.trans {s s' s'' : σ} (h : Reachable step C s s') (h' : Reachable step C s' s'') :
    Reachable step C s s'' :=
  h'.elim fun _ run => run.reachable h

theorem Reachable.single {s s' : σ} {a : α} (hc : C s a) (hs : step s a = some s') : Reachable step C s s' :=
  ⟨[a], .single hc hs⟩

/-- The descent rule: where some run always leads from a state to one with less left, some run leads to one with
nothing left. -/
theorem Reachable.descend {I Q : σ → Prop} {m : σ → Nat}
    (hI : ∀ s, I s → ¬ Q s → ∃ s', Reachable step C s s' ∧ I s' ∧ m s' < m s) {s : σ} (h0 : I s) :
    ∃ s', Reachable step C s s' ∧ I s' ∧ Q s' := by
  induction n : m s using Nat.strongRecOn generalizing s with
  | ind n ih =>
    by_cases done : Q s
    · exact ⟨s, .refl s, h0, done⟩
    · obtain ⟨s₁, first, h1, less⟩ := hI s h0 done
      obtain ⟨s', rest, h', done⟩ := ih (m s₁) (by omega) h1 rfl
      exact ⟨s', first.trans rest, h', done⟩

/-- The invariant rule for a run that starts in a reachable state: what is known of the states
reached helps to preserve the invariant. -/
theorem Run.invariant_from {I : σ → Prop} {init s s' : σ} {as : List α}
    (hI : ∀ s a s', Reachable step Any init s → I s → C s a → step s a = some s' → I s')
    (reach : Reachable step Any init s) (h : Run step C s as s') (h0 : I s) : I s' := by
  induction h with
  | nil => exact h0
  | cons hc hs _ ih => exact ih (reach.next trivial hs) (hI _ _ _ reach h0 hc hs)

/-- The invariant rule for a property of the state and of the labels that led to it. -/
theorem Run.invariant_labels {I : List α → σ → Prop} {init s s' : σ} {as bs : List α}
    (hI : ∀ bs s a s', Run step C init bs s → I bs s → C s a → step s a = some s' → I (bs ++ [a]) s')
    (before : Run step C init bs s) (h : Run step C s as s') (h0 : I bs s) : I (bs ++ as) s' := by
  induction h generalizing bs with
  | nil => rwa [List.append_nil]
  | @cons s s₁ s' a as hc hs _ ih =>
    have step := ih (before.snoc hc hs) (hI _ _ _ _ before h0 hc hs)
    rwa [List.append_assoc] at step

/-- A state of the run whose labels are `as`. -/
def Visits (step : σ → α → Option σ) (init : σ) (as : List α) (s : σ) : Prop :=
  ∃ bs, bs <+: as ∧ Run step Any init bs s

theorem Visits.snoc {init s : σ} {as : List α} (h : Visits step init as s) (a : α) :
    Visits step init (as ++ [a]) s :=
  h.imp fun _ h => ⟨h.1.trans (List.prefix_append as [a]), h.2⟩

theorem Run.visits {init s : σ} {as : List α} (h : Run step C init as s) : Visits step init as s :=
  ⟨as, List.prefix_rfl, h.any⟩

/-- Where an invariant makes one condition on the steps imply another, the runs of the one are runs of the
other. -/
theorem Run.mono_with {I : σ → Prop} (hI : ∀ s a s', I s → C s a → step s a = some s' → I s')
    (hCD : ∀ s a s', I s → C s a → step s a = some s' → D s a) {s s' : σ} {as : List α}
    (h : Run step C s as s') (h0 : I s) : Run step D s as s' := by
  induction h with
  | nil => exact .nil _
  | cons hc hs _ ih => exact .cons (hCD _ _ _ h0 hc hs) hs (ih (hI _ _ _ h0 hc hs))

/-- Where an invariant makes two conditions on the steps agree, they admit the same runs. -/
theorem Run.congr_with {I : σ → Prop} (hI : ∀ s a s', I s → step s a = some s' → I s')
    (h : ∀ s a s', I s → step s a = some s' → (C s a ↔ D s a)) {s s' : σ} {as : List α} (h0 : I s) :
    Run step C s as s' ↔ Run step D s as s' := by
  constructor
  · intro run
    exact run.mono_with (fun _ _ _ hi _ hs => hI _ _ _ hi hs) (fun _ _ _ hi hc hs => (h _ _ _ hi hs).1 hc) h0
  · intro run
    exact run.mono_with (fun _ _ _ hi _ hs => hI _ _ _ hi hs) (fun _ _ _ hi hd hs => (h _ _ _ hi hs).2 hd) h0

/-- An invariant proved with the help of another one: `J` holds of every reachable state, and a
step preserves `I` where `J` holds. -/
theorem Reachable.invariant_with {I J : σ → Prop} {init s : σ}
    (hJ : ∀ t, Reachable step Any init t → J t)
    (hI : ∀ s a s', J s → I s → C s a → step s a = some s' → I s')
    (h : Reachable step C init s) (h0 : I init) : I s :=
  h.elim fun _ hr => hr.invariant_from (fun s a s' hs => hI s a s' (hJ s hs)) (.refl init) h0

/-- The refinement rule: a system whose every step is, seen through `f`, a step of another one or
none, reaches only states that the other one reaches. -/
theorem Reachable.refines {τ β : Type*} {step' : τ → β → Option τ} {f : σ → τ} {init s : σ}
    (h : Reachable step C init s)
    (hf : ∀ s a s', Reachable step Any init s → step s a = some s' →
      f s' = f s ∨ ∃ b, step' (f s) b = some (f s')) :
    Reachable step' Any (f init) (f s) := by
  refine h.invariant_with (I := fun s => Reachable step' Any (f init) (f s))
    (J := fun s => Reachable step Any init s) (fun _ ht => ht) (fun s a s' reach hI _ hs => ?_) (.refl _)
  rcases hf s a s' reach hs with same | ⟨b, hb⟩
  · rwa [same]
  · exact hI.next trivial hb

/-- The budget rule: where every step takes what it makes (`m`) from what is left (`n`), a run makes no more than
was left. -/
theorem Run.budget {I : σ → Prop} {m n : σ → Nat}
    (hI : ∀ s a s', I s → C s a → step s a = some s' → I s' ∧ m s' + n s' ≤ m s + n s)
    {s s' : σ} {as : List α} (h : Run step C s as s') (h0 : I s) : m s' ≤ m s + n s := by
  have kept : I s' ∧ m s' + n s' ≤ m s + n s :=
    h.invariant (I := fun t => I t ∧ m t + n t ≤ m s + n s)
      (fun t a t' ht hc hs => by
        obtain ⟨ht', spent⟩ := hI t a t' ht.1 hc hs
        exact ⟨ht', Nat.le_trans spent ht.2⟩) ⟨h0, Nat.le_refl _⟩
  have := kept.2
  omega

/-- No step that the condition admits is possible. -/
def Stuck (step : σ → α → Option σ) (C : σ → α → Prop) (s : σ) : Prop := ∀ a, C s a → step s a = none

/-- The exhaustion rule: where every step takes something from what is left, a run is no longer than what was left. -/
theorem Run.length_le {I : σ → Prop} {m : σ → Nat}
    (hI : ∀ s a s', I s → C s a → step s a = some s' → I s' ∧ m s' < m s)
    {s s' : σ} {as : List α} (h : Run step C s as s') (h0 : I s) : as.length + m s' ≤ m s := by
  induction h with
  | nil => exact Nat.le_of_eq (Nat.zero_add _)
  | cons hc hs _ ih =>
    obtain ⟨h1, less⟩ := hI _ _ _ h0 hc hs
    have rest := ih h1
    rw [List.length_cons]
    omega

/-- A quantity that every step changes by its leak alone stays zero throughout a run if and only if no
step of the run leaks. -/
theorem Run.drift_iff {drift : σ → Int} {leak : σ → α → Nat}
    (hd : ∀ s a s', step s a = some s' → drift s' = drift s + leak s a) {s s' : σ} {as : List α}
    (h : Run step Any s as s') (h0 : drift s = 0) :
    (∀ bs t, bs <+: as → Run step Any s bs t → drift t = 0) ↔
      Run step (fun s a => leak s a = 0) s as s' := by
  induction h with
  | nil s =>
    constructor
    · intro _
      exact .nil s
    · intro _ bs t part run
      cases List.prefix_nil.1 part
      cases run
      exact h0
  | @cons s s₁ s' a as _ hs rest ih =>
    have first := hd s a s₁ hs
    constructor
    · intro zero
      have none : drift s₁ = 0 := zero [a] s₁ (by simp) (.single trivial hs)
      have tight : leak s a = 0 := by omega
      refine .cons tight hs ((ih none).1 fun bs t part run => ?_)
      exact zero (a :: bs) t (List.cons_prefix_cons.2 ⟨rfl, part⟩) (.cons trivial hs run)
    · intro tight bs t part run
      cases tight with
      | @cons _ s₂ _ _ _ none hs' tight =>
        cases hs.symm.trans hs'
        have zero : drift s₁ = 0 := by omega
        cases run with
        | nil => exact h0
        | @cons _ s₃ _ b bs _ hs₃ run =>
          obtain ⟨rfl, rest⟩ := List.cons_prefix_cons.1 part
          cases hs.symm.trans hs₃
          exact (ih zero).2 tight bs t rest run

section Along

variable {ρ : Type*} (step) (follow : σ → ρ → α → Option ρ)

/-- Two systems that take each label together. The second one sees the state that the first one takes it in. -/
def along (x : σ × ρ) (a : α) : Option (σ × ρ) :=
  (step x.1 a).bind fun s => (follow x.1 x.2 a).map (s, ·)

variable {step} {follow}

/-- The simulation rule: a second system whose every step leads from the image of a state to the image of the next one
goes along with every run. -/
theorem Run.along {f : σ → ρ} {init s s' : σ} {as : List α}
    (hf : ∀ s a s', Reachable step Any init s → step s a = some s' → follow s (f s) a = some (f s'))
    (reach : Reachable step Any init s) (h : Run step C s as s') :
    Run (Lts.along step follow) Any (s, f s) as (s', f s') := by
  induction h with
  | nil => exact .nil _
  | @cons s s₁ s' a as _ hs _ ih =>
    have together : Lts.along step follow (s, f s) a = some (s₁, f s₁) := by
      rw [Lts.along, hs, Option.bind_some, hf s a s₁ reach hs, Option.map_some]
    exact .cons trivial together (ih (reach.next trivial hs))

end Along

section Outputs

variable {ω : Type*} (step) (emit : σ → α → Option ω)

/-- What the steps of a run put out, in order. -/
def outputs : σ → List α → List ω
  | _, [] => []
  | s, a :: as => (emit s a).toList ++ (step s a).elim [] fun s' => outputs s' as

variable {step} {emit}

theorem Run.outputs_append {s s' : σ} {as bs : List α} (h : Run step C s as s') :
    outputs step emit s (as ++ bs) = outputs step emit s as ++ outputs step emit s' bs := by
  induction h with
  | nil => rfl
  | cons _ hs _ ih => simp only [List.cons_append, outputs, hs, Option.elim_some, ih, List.append_assoc]

/-- The invariant rule for a property of the state and of what was put out before it. -/
theorem Run.invariant_outputs {I : σ → List ω → Prop} {init s s' : σ} {as : List α}
    {out : List ω}
    (hI : ∀ s a s' out, Reachable step Any init s → I s out → C s a → step s a = some s' →
      I s' (out ++ (emit s a).toList))
    (reach : Reachable step Any init s) (h : Run step C s as s') (h0 : I s out) :
    I s' (out ++ outputs step emit s as) := by
  induction h generalizing out with
  | nil => rwa [outputs, List.append_nil]
  | cons hc hs _ ih =>
    rw [outputs, hs, Option.elim_some, ← List.append_assoc]
    exact ih (reach.next trivial hs) (hI _ _ _ _ reach h0 hc hs)

/-- The rule for what is put out: what every step puts out is explained by what was put out before it. -/
theorem Run.each_output {I : σ → List ω → Prop} {P : List ω → ω → Prop} {init s s' : σ} {as : List α}
    {out : List ω}
    (hI : ∀ s a s' out, Reachable step Any init s → I s out → C s a → step s a = some s' →
      I s' (out ++ (emit s a).toList))
    (hP : ∀ s a s' out x, Reachable step Any init s → I s out → C s a → step s a = some s' →
      emit s a = some x → P out x)
    (reach : Reachable step Any init s) (h : Run step C s as s') (h0 : I s out) {before after : List ω} {x : ω}
    (split : outputs step emit s as = before ++ x :: after) : P (out ++ before) x := by
  induction h generalizing out before with
  | nil => cases before <;> cases split
  | @cons s s₁ s' a as hc hs _ ih =>
    have kept := hI _ _ _ _ reach h0 hc hs
    rw [outputs, hs, Option.elim_some] at split
    cases he : emit s a with
    | none =>
      rw [he, Option.toList_none, List.nil_append] at split
      rw [he, Option.toList_none, List.append_nil] at kept
      exact ih (reach.next trivial hs) kept split
    | some y =>
      rw [he, Option.toList_some, List.singleton_append] at split
      rw [he, Option.toList_some] at kept
      cases before with
      | nil =>
        obtain ⟨rfl, -⟩ := List.cons.inj split
        rw [List.append_nil]
        exact hP _ _ _ _ _ reach h0 hc hs he
      | cons z before =>
        obtain ⟨rfl, rest⟩ := List.cons.inj split
        have later := ih (reach.next trivial hs) kept rest
        rwa [List.append_assoc] at later

end Outputs

/-- Execute a label list, testing a decidable condition before each step. -/
def check (step : σ → α → Option σ) (C : σ → α → Bool) : σ → List α → Option σ
  | s, [] => some s
  | s, a :: as => if C s a then (step s a).bind fun s' => check step C s' as else none

theorem Run.of_check {C : σ → α → Bool} {s s' : σ} {as : List α}
    (h : check step C s as = some s') : Run step (fun s a => C s a = true) s as s' := by
  induction as generalizing s with
  | nil => cases h; exact .nil _
  | cons a as ih =>
    simp only [check, Option.ite_none_right_eq_some, Option.bind_eq_some_iff] at h
    obtain ⟨hc, t, ht, h⟩ := h
    exact .cons hc ht (ih h)

/-- One evaluation of a concrete run gives its end state together with a tested fact about it. -/
theorem Run.of_check_any {C : σ → α → Bool} {p : σ → Bool} {s : σ} {as : List α}
    (h : (check step C s as).any p = true) :
    ∃ s', Run step (fun s a => C s a = true) s as s' ∧ p s' = true := by
  rw [Option.any_eq_true] at h
  obtain ⟨s', hs, hp⟩ := h
  exact ⟨s', .of_check hs, hp⟩

end Lts
