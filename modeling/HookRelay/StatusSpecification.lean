import Mathlib.Data.Set.Basic
import HookRelay.DerivedStatus

/-!
# What the derived status says

An endpoint that the event has rows of has succeeded, is exhausted, or is being retried. The status
`get_event` derives is told by which of these three sets are empty, whatever rows the tables hold.
-/

namespace HookRelay

namespace Tables

/-- The endpoints with an attempt row or a dead letter of the event. -/
def knownEndpoints (t : Tables) (e : UUID) : Set UUID := {p | t.Tried e p ∨ t.HasDlq e p}

/-- Those with some success. -/
def succeeded (t : Tables) (e : UUID) : Set UUID :=
  {p | ∃ a ∈ t.attempts, a.eventId = e ∧ a.endpointId = p ∧ a.status = .success}

/-- Those with a dead letter and no success. -/
def exhausted (t : Tables) (e : UUID) : Set UUID := {p | t.HasDlq e p ∧ p ∉ t.succeeded e}

/-- The remaining ones. -/
def retrying (t : Tables) (e : UUID) : Set UUID :=
  {p | p ∈ t.knownEndpoints e ∧ p ∉ t.succeeded e ∧ p ∉ t.exhausted e}

/-- What each status means. -/
def StatusCase (t : Tables) (e : UUID) : EventStatus → Prop
  | .pending => t.knownEndpoints e = ∅
  | .retrying => (t.knownEndpoints e).Nonempty ∧ t.succeeded e = ∅ ∧ (t.retrying e).Nonempty
  | .delivered => (t.knownEndpoints e).Nonempty ∧ t.exhausted e = ∅ ∧ t.retrying e = ∅
  | .partiallyRetrying =>
    (t.knownEndpoints e).Nonempty ∧ (t.succeeded e).Nonempty ∧ (t.retrying e).Nonempty
  | .partiallyDelivered => (t.knownEndpoints e).Nonempty ∧ (t.succeeded e).Nonempty ∧
    (t.exhausted e).Nonempty ∧ t.retrying e = ∅
  | .dlq => (t.knownEndpoints e).Nonempty ∧ t.succeeded e = ∅ ∧ t.retrying e = ∅

/-- Both tables have the same rows of the event, in whatever order and number. -/
structure SameRows (e : UUID) (t t' : Tables) : Prop where
  attempts : ∀ a, a.eventId = e → (a ∈ t.attempts ↔ a ∈ t'.attempts)
  dlq : ∀ d, d.eventId = e → (d ∈ t.dlq ↔ d ∈ t'.dlq)

section

variable {t t' : Tables} {e p : UUID}

/-! ## The three counts -/

theorem mem_succeeded : p ∈ t.succeeded e ↔ t.hasSuccess e p = true := hasSuccess_iff.symm

theorem succeeded_known (h : p ∈ t.succeeded e) : p ∈ t.knownEndpoints e := by
  obtain ⟨a, ha, event, endpoint, -⟩ := h
  exact .inl ⟨a, ha, event, endpoint⟩

theorem exhausted_known (h : p ∈ t.exhausted e) : p ∈ t.knownEndpoints e := .inr h.1

theorem retrying_known (h : p ∈ t.retrying e) : p ∈ t.knownEndpoints e := h.1

/-- An endpoint that is known is in one of the three sets. -/
theorem known_cases (h : p ∈ t.knownEndpoints e) :
    p ∈ t.succeeded e ∨ p ∈ t.exhausted e ∨ p ∈ t.retrying e := by
  by_cases success : p ∈ t.succeeded e
  · exact .inl success
  · by_cases dead : p ∈ t.exhausted e
    · exact .inr (.inl dead)
    · exact .inr (.inr ⟨h, success, dead⟩)

/-- `states` has a row for every known endpoint, which counts as a condition tells from its flags. -/
theorem countWhen_endpointStates {c : EndpointState → Sql.Truth} {ps : Set UUID}
    (sub : ∀ p ∈ ps, p ∈ t.knownEndpoints e)
    (tells : ∀ p ∈ t.knownEndpoints e,
      c ⟨p, t.hasSuccess e p, some (decide (t.HasDlq e p))⟩ = some true ↔ p ∈ ps) :
    0 < Sql.countWhen c (t.endpointStates e) ↔ ps.Nonempty := by
  rw [Sql.countWhen_pos]
  constructor
  · rintro ⟨⟨p, success, dead⟩, hx, counted⟩
    obtain ⟨known, hs, hd⟩ := mem_endpointStates.1 hx
    have hs : success = t.hasSuccess e p := hs
    have hd : dead = some (decide (t.HasDlq e p)) := hd
    rw [hs, hd] at counted
    exact ⟨p, (tells p known).1 counted⟩
  · rintro ⟨p, hp⟩
    have known := sub p hp
    have state : (⟨p, t.hasSuccess e p, some (decide (t.HasDlq e p))⟩ : EndpointState) ∈
        t.endpointStates e := mem_endpointStates.2 ⟨known, rfl, rfl⟩
    exact ⟨_, state, (tells p known).2 hp⟩

theorem countWhen_succeeded :
    0 < Sql.countWhen EndpointState.succeeded (t.endpointStates e) ↔ (t.succeeded e).Nonempty := by
  refine countWhen_endpointStates (fun p hp => succeeded_known hp) fun p _ => ?_
  rw [mem_succeeded, EndpointState.succeeded, Option.some.injEq]

theorem countWhen_exhausted :
    0 < Sql.countWhen EndpointState.exhausted (t.endpointStates e) ↔ (t.exhausted e).Nonempty := by
  refine countWhen_endpointStates (fun p hp => exhausted_known hp) fun p _ => ?_
  rw [exhausted, Set.mem_ofPred_eq, mem_succeeded, EndpointState.exhausted]
  simp

theorem countWhen_retrying :
    0 < Sql.countWhen EndpointState.retrying (t.endpointStates e) ↔ (t.retrying e).Nonempty := by
  refine countWhen_endpointStates (fun p hp => retrying_known hp) fun p known => ?_
  rw [retrying, Set.mem_ofPred_eq, exhausted, Set.mem_ofPred_eq, mem_succeeded, EndpointState.retrying]
  simp only [Sql.Truth.not_some, Sql.Truth.and_some, Option.some.injEq, Bool.and_eq_true,
    Bool.not_eq_true', decide_eq_false_iff_not, Bool.not_eq_true, known, true_and]
  constructor
  · rintro ⟨unsuccessful, alive⟩
    exact ⟨unsuccessful, fun dead => alive dead.1⟩
  · rintro ⟨unsuccessful, other⟩
    exact ⟨unsuccessful, fun dead => other ⟨dead, unsuccessful⟩⟩

theorem knownEndpoints_nonempty : (t.knownEndpoints e).Nonempty ↔
    (t.succeeded e).Nonempty ∨ (t.exhausted e).Nonempty ∨ (t.retrying e).Nonempty := by
  constructor
  · rintro ⟨p, hp⟩
    obtain hp | hp | hp := known_cases hp
    · exact .inl ⟨p, hp⟩
    · exact .inr (.inl ⟨p, hp⟩)
    · exact .inr (.inr ⟨p, hp⟩)
  · rintro (⟨p, hp⟩ | ⟨p, hp⟩ | ⟨p, hp⟩)
    · exact ⟨p, succeeded_known hp⟩
    · exact ⟨p, exhausted_known hp⟩
    · exact ⟨p, retrying_known hp⟩

/-! ## The status -/

/-- No two statuses mean the same. -/
theorem statusCase_unique {status status' : EventStatus} (h : t.StatusCase e status)
    (h' : t.StatusCase e status') : status = status' := by
  have known := knownEndpoints_nonempty (t := t) (e := e)
  cases status <;> cases status' <;>
    simp only [StatusCase, ← Set.not_nonempty_iff_eq_empty, known] at h h' <;> first | rfl | tauto

/-- The chain of conditions ends in the case that holds. -/
theorem statusCase_derived : t.StatusCase e (t.derivedStatus e) := by
  have known := knownEndpoints_nonempty (t := t) (e := e)
  have hs := countWhen_succeeded (t := t) (e := e)
  have hx := countWhen_exhausted (t := t) (e := e)
  have hr := countWhen_retrying (t := t) (e := e)
  unfold derivedStatus
  dsimp only
  split_ifs <;>
    simp only [StatusCase, ← Set.not_nonempty_iff_eq_empty, known, ← hs, ← hx, ← hr] <;> omega

theorem derivedStatus_eq_iff {status : EventStatus} :
    t.derivedStatus e = status ↔ t.StatusCase e status := by
  constructor
  · rintro rfl
    exact statusCase_derived
  · intro h
    exact statusCase_unique statusCase_derived h

/-! ## Only rows of the event -/

theorem SameRows.attempt_iff (h : SameRows e t t') {q : DeliveryAttempt → Prop} :
    (∃ a ∈ t.attempts, a.eventId = e ∧ q a) ↔ ∃ a ∈ t'.attempts, a.eventId = e ∧ q a := by
  refine exists_congr fun a => ?_
  constructor
  · rintro ⟨ha, event, rest⟩
    exact ⟨(h.attempts a event).1 ha, event, rest⟩
  · rintro ⟨ha, event, rest⟩
    exact ⟨(h.attempts a event).2 ha, event, rest⟩

theorem SameRows.tried (h : SameRows e t t') : t.Tried e p ↔ t'.Tried e p := h.attempt_iff

theorem SameRows.succeeded (h : SameRows e t t') : t.succeeded e = t'.succeeded e :=
  Set.ext fun _ => h.attempt_iff

theorem SameRows.hasDlq (h : SameRows e t t') : t.HasDlq e p ↔ t'.HasDlq e p := by
  refine exists_congr fun d => ?_
  constructor
  · rintro ⟨hd, event, endpoint⟩
    exact ⟨(h.dlq d event).1 hd, event, endpoint⟩
  · rintro ⟨hd, event, endpoint⟩
    exact ⟨(h.dlq d event).2 hd, event, endpoint⟩

theorem SameRows.derivedStatus (h : SameRows e t t') : t'.derivedStatus e = t.derivedStatus e := by
  have known : t.knownEndpoints e = t'.knownEndpoints e := by
    ext p
    exact or_congr h.tried h.hasDlq
  have exhausted : t.exhausted e = t'.exhausted e := by
    ext p
    simp only [Tables.exhausted, Set.mem_ofPred_eq, h.succeeded, h.hasDlq]
  have retrying : t.retrying e = t'.retrying e := by
    simp only [Tables.retrying, known, h.succeeded, exhausted]
  refine derivedStatus_eq_iff.2 ?_
  have same := statusCase_derived (t := t) (e := e)
  revert same
  cases t.derivedStatus e <;> simp only [StatusCase, known, h.succeeded, exhausted, retrying] <;>
    exact fun same => same

end

/-- The status that `get_event` derives for the event `e`: it comes from the rows of `e` alone, and is
the one of the six whose case holds. -/
theorem derived_status_spec (t : Tables) (e : UUID) :
    (∀ t', SameRows e t t' → t'.derivedStatus e = t.derivedStatus e) ∧
      (∀ status, t.derivedStatus e = status ↔ t.StatusCase e status) ∧
      ∃! status, t.StatusCase e status :=
  ⟨fun _ same => same.derivedStatus, fun _ => derivedStatus_eq_iff,
    t.derivedStatus e, statusCase_derived, fun _ h => statusCase_unique h statusCase_derived⟩

end Tables
end HookRelay
