import Mathlib.Order.Interval.Finset.Nat
import HookRelay.Evolution

/-!
# What the lag gauge says

`run_lag_reporter` reads the end offsets of its partitions first and their committed positions afterwards, one
request each, while the topic grows, calls end and commits arrive. The gauge is an upper bound all the same: it
covers every record that was in a partition when the tick began and is not processed when the tick is over. Its
labels are the partitions of the last tick that went through.
-/

namespace HookRelay

/-- How far a tick has come: it awaits `end_offsets`, or the committed position of the first partition left, with
the end offsets that were returned and the lags computed so far. -/
inductive LagStage where
  | asleep
  | ends (assigned : List Nat)
  | committed (ends : List (Nat × Nat)) (lags : List (Nat × Nat))
  deriving DecidableEq

/-- The partitions that a tick under way asks for. -/
def LagStage.partitions : LagStage → List Nat
  | .asleep => []
  | .ends assigned => assigned
  | .committed left lags => lags.map (·.1) ++ left.map (·.1)

/-- The lag reporter of a process beside the deployment: the exported values of `kafka_consumer_lag` by partition, and
`active_labels`. -/
structure LagReporter where
  system : State := {}
  gauge : Nat → Option Nat := fun _ => none
  active : List Nat := []
  stage : LagStage := .asleep

/-- What happens next. `assignment()` returns a set; any await of the tick may raise, which is only logged; a
process that starts anew has exported nothing. -/
inductive LagAction where
  | system (a : Action)
  | assignment (assigned : List Nat)
  | endOffsets
  | committed
  | fail
  | restart

/-- The tick is given up, or another one begins. -/
def LagAction.abandons : LagAction → Bool
  | .assignment _ | .fail | .restart => true
  | _ => false

namespace LagReporter

/-- `kafka_consumer_lag.labels(…).set(lag)` for each of the lags. -/
def setAll (gauge : Nat → Option Nat) (lags : List (Nat × Nat)) : Nat → Option Nat :=
  lags.foldl (fun gauge lag => Function.update gauge lag.1 (some lag.2)) gauge

/-- `kafka_consumer_lag.remove(…)` for each of the labels, which raises for one that is not exported. -/
def removeAll (gauge : Nat → Option Nat) : List Nat → (Nat → Option Nat) × Bool
  | [] => (gauge, true)
  | p :: ps => if (gauge p).isSome then removeAll (Function.update gauge p none) ps else (gauge, false)

/-- The rest of the tick once `fetch_lags` has returned. -/
def publish (s : LagReporter) (lags : List (Nat × Nat)) : LagReporter :=
  let current := lags.map (·.1)
  match removeAll (setAll s.gauge lags) (s.active.filter (· ∉ current)) with
  | (gauge, true) => { s with gauge, active := current, stage := .asleep }
  | (gauge, false) => { s with gauge, stage := .asleep }

def step (cfg : Settings) (s : LagReporter) : LagAction → Option LagReporter
  | .system a => (s.system.step cfg a).map fun system => { s with system }
  | .assignment assigned =>
    if s.stage = .asleep ∧ assigned.Nodup then
      some (if assigned = [] then s.publish [] else { s with stage := .ends assigned })
    else none
  | .endOffsets =>
    match s.stage with
    | .ends assigned =>
      some { s with stage := .committed (assigned.map fun p => (p, s.system.group.endOffset p)) [] }
    | _ => none
  | .committed =>
    match s.stage with
    | .committed ((p, last) :: rest) lags =>
      let lags := lags ++ [(p, last - s.system.group.committed p)]
      some (if rest = [] then s.publish lags else { s with stage := .committed rest lags })
    | _ => none
  | .fail => if s.stage = .asleep then none else some { s with stage := .asleep }
  | .restart => some { s with gauge := fun _ => none, active := [], stage := .asleep }

/-- The labels that are exported are the active ones. -/
structure Labelled (s : LagReporter) : Prop where
  exact : ∀ p, (s.gauge p).isSome = true ↔ p ∈ s.active
  active : s.active.Nodup
  partitions : s.stage.partitions.Nodup

section Gauge

variable {gauge : Nat → Option Nat} {lags : List (Nat × Nat)} {p v : Nat}

theorem setAll_other (other : p ∉ lags.map (·.1)) : setAll gauge lags p = gauge p := by
  induction lags generalizing gauge with
  | nil => rfl
  | cons lag lags ih =>
    rw [List.map_cons, List.mem_cons, not_or] at other
    rw [setAll, List.foldl_cons, ← setAll, ih other.2, Function.update_of_ne other.1]

theorem setAll_mem (nodup : (lags.map (·.1)).Nodup) (mem : (p, v) ∈ lags) : setAll gauge lags p = some v := by
  induction lags generalizing gauge with
  | nil => cases mem
  | cons lag lags ih =>
    rw [List.map_cons, List.nodup_cons] at nodup
    rw [setAll, List.foldl_cons, ← setAll]
    rcases List.mem_cons.1 mem with rfl | mem
    · rw [setAll_other nodup.1, Function.update_self]
    · exact ih nodup.2 mem

/-- Nothing raises when the labels are exported and apart. -/
theorem removeAll_eq {ps : List Nat} (nodup : ps.Nodup) (exported : ∀ p ∈ ps, (gauge p).isSome = true) :
    removeAll gauge ps = (fun p => if p ∈ ps then none else gauge p, true) := by
  induction ps generalizing gauge with
  | nil => simp [removeAll]
  | cons q qs ih =>
    obtain ⟨apart, nodup⟩ := List.nodup_cons.1 nodup
    rw [removeAll, if_pos (exported q List.mem_cons_self), ih nodup fun p hp => ?_]
    · congr 1
      funext p
      by_cases here : p = q
      · subst here
        simp [apart]
      · simp [here]
    · have other : p ≠ q := by
        rintro rfl
        exact apart hp
      rw [Function.update_of_ne other]
      exact exported p (List.mem_cons_of_mem _ hp)

end Gauge

/-! ## The labels -/

section Labels

variable {cfg : Settings} {s s' : LagReporter} {lags : List (Nat × Nat)} {a : LagAction}

/-- What a tick that goes through leaves behind. -/
structure Published (lags : List (Nat × Nat)) (s : LagReporter) : Prop where
  asleep : s.stage = .asleep
  active : s.active = lags.map (·.1)
  gauge : ∀ p v, (p, v) ∈ lags → s.gauge p = some v
  stale : ∀ p, p ∉ lags.map (·.1) → s.gauge p = none

/-- No `remove` raises, so a tick goes through once `fetch_lags` has returned. -/
theorem Labelled.publish (h : s.Labelled) (nodup : (lags.map (·.1)).Nodup) :
    Published lags (s.publish lags) := by
  have exported : ∀ p ∈ s.active.filter (· ∉ lags.map (·.1)), (setAll s.gauge lags p).isSome = true := by
    intro p hp
    obtain ⟨active, stale⟩ := List.mem_filter.1 hp
    rw [setAll_other (of_decide_eq_true stale)]
    exact (h.exact p).2 active
  have removed := removeAll_eq (h.active.filter _) exported
  simp only [LagReporter.publish, removed]
  refine ⟨rfl, rfl, fun p v mem => ?_, fun p stale => ?_⟩
  · have current : p ∈ lags.map (·.1) := List.mem_map_of_mem mem
    show (if p ∈ s.active.filter (· ∉ lags.map (·.1)) then none else setAll s.gauge lags p) = some v
    rw [if_neg (by simp only [List.mem_filter, current]; simp), setAll_mem nodup mem]
  · show (if p ∈ s.active.filter (· ∉ lags.map (·.1)) then none else setAll s.gauge lags p) = none
    split
    · rfl
    · rename_i kept
      have inactive : p ∉ s.active := by simpa [List.mem_filter, stale] using kept
      rw [setAll_other stale, ← Option.not_isSome_iff_eq_none, h.exact p]
      exact inactive

theorem Published.labelled (h : Published lags s) (nodup : (lags.map (·.1)).Nodup) : s.Labelled where
  exact p := by
    rw [h.active]
    constructor
    · intro exported
      by_contra stale
      rw [h.stale p stale] at exported
      cases exported
    · intro current
      obtain ⟨⟨_, v⟩, mem, rfl⟩ := List.mem_map.1 current
      rw [h.gauge _ v mem, Option.isSome_some]
  active := h.active ▸ nodup
  partitions := by
    rw [h.asleep]
    exact List.nodup_nil

theorem Labelled.step (h : s.Labelled) (hs : s.step cfg a = some s') : s'.Labelled := by
  cases a with
  | system a =>
    obtain ⟨system, -, rfl⟩ := Option.map_eq_some_iff.1 hs
    exact ⟨h.exact, h.active, h.partitions⟩
  | assignment assigned =>
    obtain ⟨⟨-, nodup⟩, same⟩ := Option.ite_none_right_eq_some.1 hs
    cases same
    split
    · have none : (([] : List (Nat × Nat)).map (·.1)).Nodup := List.nodup_nil
      exact (h.publish none).labelled none
    · exact ⟨h.exact, h.active, nodup⟩
  | endOffsets =>
    have partitions := h.partitions
    simp only [LagReporter.step] at hs
    split at hs
    · rename_i assigned stage
      cases hs
      rw [stage] at partitions
      refine ⟨h.exact, h.active, ?_⟩
      show (([] : List Nat) ++ (assigned.map fun p => (p, s.system.group.endOffset p)).map (·.1)).Nodup
      rw [List.nil_append, List.map_map]
      exact (List.map_id _).symm ▸ partitions
    · cases hs
  | committed =>
    have partitions := h.partitions
    simp only [LagReporter.step] at hs
    split at hs
    · rename_i p last rest lags stage
      cases hs
      rw [stage] at partitions
      have moved : ((lags ++ [(p, last - s.system.group.committed p)]).map (·.1) ++ rest.map (·.1)).Nodup := by
        simpa [LagStage.partitions] using partitions
      split
      · have nodup := (List.nodup_append.1 moved).1
        exact (h.publish nodup).labelled nodup
      · exact ⟨h.exact, h.active, moved⟩
    · cases hs
  | fail =>
    obtain ⟨-, same⟩ := Option.ite_none_left_eq_some.1 hs
    cases same
    exact ⟨h.exact, h.active, List.nodup_nil⟩
  | restart =>
    cases hs
    exact ⟨fun p => by simp, List.nodup_nil, List.nodup_nil⟩

theorem labelled (reach : Lts.Reachable (step cfg) Lts.Any {} s) : s.Labelled :=
  reach.invariant (fun _ _ _ h _ hs => h.step hs) ⟨fun p => by simp, List.nodup_nil, List.nodup_nil⟩

end Labels

/-! ## What a lag counts -/

/-- How many records of the partition in the log are not processed. -/
def unprocessed (log processed : List (Record Message)) (p : Nat) : Nat :=
  log.countP fun r => r.partition = p && !processed.contains r

theorem unprocessed_anti {log processed processed' : List (Record Message)} {p : Nat}
    (more : ∀ r ∈ processed, r ∈ processed') : unprocessed log processed' p ≤ unprocessed log processed p := by
  refine List.countP_mono_left fun r _ h => ?_
  simp only [Bool.and_eq_true, decide_eq_true_eq, Bool.not_eq_true', List.contains_eq_mem, decide_eq_false_iff_not]
    at h ⊢
  exact ⟨h.1, fun old => h.2 (more r old)⟩

/-- The lag covers what is not processed: records below the committed position are, and offsets are apart. -/
theorem unprocessed_le {log processed : List (Record Message)} {p last position : Nat} (nodup : log.Nodup)
    (apart : ∀ r ∈ log, ∀ r' ∈ log, r.partition = r'.partition → r.offset = r'.offset → r = r')
    (ended : ∀ r ∈ log, r.partition = p → r.offset < last)
    (acked : ∀ r ∈ log, r.partition = p → r.offset < position → r ∈ processed) :
    unprocessed log processed p ≤ last - position := by
  have rest : ∀ r ∈ log.filter (fun r => r.partition = p && !processed.contains r),
      r ∈ log ∧ r.partition = p ∧ r ∉ processed := fun r hr => by simpa using hr
  have offsets : ((log.filter fun r => r.partition = p && !processed.contains r).map (·.offset)).Nodup := by
    refine (nodup.filter _).map_on fun r hr r' hr' same => ?_
    obtain ⟨hr, hp, -⟩ := rest r hr
    obtain ⟨hr', hp', -⟩ := rest r' hr'
    exact apart r hr r' hr' (hp.trans hp'.symm) same
  have between : ((log.filter fun r => r.partition = p && !processed.contains r).map (·.offset)).toFinset ⊆
      Finset.Ico position last := by
    intro o ho
    obtain ⟨r, hr, rfl⟩ := List.mem_map.1 (List.mem_toFinset.1 ho)
    obtain ⟨hr, hp, waiting⟩ := rest r hr
    refine Finset.mem_Ico.2 ⟨?_, ended r hr hp⟩
    by_contra below
    exact waiting (acked r hr hp (Nat.lt_of_not_le below))
  have card := Finset.card_le_card between
  rwa [List.toFinset_card_of_nodup offsets, List.length_map, Nat.card_Ico, ← List.countP_eq_length_filter] at card

/-! ## A tick -/

/-- A tick for the partitions that began when the topic had the records `log`: every lag it has computed covers the
records of its partition that are not processed. -/
inductive Covers (log : List (Record Message)) (assigned : List Nat) (s : LagReporter) : Prop where
  | ends (stage : s.stage = .ends assigned)
  | committed {ends lags : List (Nat × Nat)} (stage : s.stage = .committed ends lags)
      (partitions : lags.map (·.1) ++ ends.map (·.1) = assigned)
      (last : ∀ x ∈ ends, ∀ r ∈ log, r.partition = x.1 → r.offset < x.2)
      (covered : ∀ x ∈ lags, unprocessed log s.system.group.processed x.1 ≤ x.2)
  | published {lags : List (Nat × Nat)} (published : Published lags s) (partitions : lags.map (·.1) = assigned)
      (covered : ∀ x ∈ lags, unprocessed log s.system.group.processed x.1 ≤ x.2)

section Tick

variable {cfg : Settings} {s s' : LagReporter} {a : LagAction} {log : List (Record Message)} {assigned : List Nat}

theorem publish_system (s : LagReporter) (lags : List (Nat × Nat)) : (s.publish lags).system = s.system := by
  unfold LagReporter.publish
  dsimp only
  split <;> rfl

/-- The reporter only reads. -/
theorem step_system (hs : s.step cfg a = some s') :
    s'.system = s.system ∨ ∃ b, s.system.step cfg b = some s'.system := by
  cases a with
  | system a =>
    obtain ⟨system, moved, rfl⟩ := Option.map_eq_some_iff.1 hs
    exact .inr ⟨a, moved⟩
  | assignment assigned =>
    obtain ⟨-, same⟩ := Option.ite_none_right_eq_some.1 hs
    cases same
    left
    split
    · exact publish_system ..
    · rfl
  | endOffsets =>
    simp only [LagReporter.step] at hs
    split at hs <;> cases hs
    exact .inl rfl
  | committed =>
    simp only [LagReporter.step] at hs
    split at hs <;> cases hs
    left
    split
    · exact publish_system ..
    · rfl
  | fail =>
    obtain ⟨-, same⟩ := Option.ite_none_left_eq_some.1 hs
    cases same
    exact .inl rfl
  | restart =>
    cases hs
    exact .inl rfl

/-- The deployment beside the reporter reaches only states of a deployment. -/
theorem reachable_system (reach : Lts.Reachable (step cfg) Lts.Any {} s) : Reachable cfg s.system :=
  reach.refines (f := fun s => s.system) fun _ _ _ _ hs => step_system hs

theorem Covers.step (h : s.Covers log assigned) (hs : s.step cfg a = some s') (goesOn : a.abandons = false)
    (labels : s.Labelled) (inv : ConsumerGroup.Inv (fun _ => 0) s.system.group) (nodup : log.Nodup)
    (present : ∀ r ∈ log, r ∈ s.system.group.log) : s'.Covers log assigned := by
  cases a with
  | system a =>
    obtain ⟨system, moved, rfl⟩ := Option.map_eq_some_iff.1 hs
    have more : ∀ p, unprocessed log system.group.processed p ≤ unprocessed log s.system.group.processed p :=
      fun p => unprocessed_anti fun r => (step_transition moved).processed_mono
    cases h with
    | ends stage => exact .ends stage
    | committed stage partitions last covered =>
      exact .committed stage partitions last fun x hx => (more x.1).trans (covered x hx)
    | published published partitions covered =>
      refine .published ?_ partitions fun x hx => (more x.1).trans (covered x hx)
      exact ⟨published.asleep, published.active, published.gauge, published.stale⟩
  | endOffsets =>
    simp only [LagReporter.step] at hs
    split at hs
    · rename_i asked stage
      cases hs
      have same : asked = assigned := by
        cases h with
        | ends stage' => exact LagStage.ends.inj (stage.symm.trans stage')
        | committed stage' => exact absurd (stage.symm.trans stage') (by simp)
        | published published => exact absurd (stage.symm.trans published.asleep) (by simp)
      subst same
      refine .committed rfl ?_ (fun x hx r hr here => ?_) (by simp)
      · rw [List.map_map]
        exact List.map_id _
      · obtain ⟨p, -, rfl⟩ := List.mem_map.1 hx
        subst here
        exact ConsumerGroup.offset_lt_endOffset (present r hr)
    · cases hs
  | committed =>
    simp only [LagReporter.step] at hs
    split at hs
    · rename_i p last rest lags stage
      cases hs
      cases h with
      | ends stage' => exact absurd (stage.symm.trans stage') (by simp)
      | published published => exact absurd (stage.symm.trans published.asleep) (by simp)
      | @committed ends' lags' stage' partitions ended covered =>
        obtain ⟨rfl, rfl⟩ := LagStage.committed.inj (stage.symm.trans stage')
        have covers : ∀ x ∈ lags ++ [(p, last - s.system.group.committed p)],
            unprocessed log s.system.group.processed x.1 ≤ x.2 := by
          intro x hx
          rcases List.mem_append.1 hx with old | new
          · exact covered x old
          · rw [List.mem_singleton.1 new]
            refine unprocessed_le nodup (fun r hr r' hr' => inv.offsets r (present r hr) r' (present r' hr'))
              (ended _ List.mem_cons_self) fun r hr here below => ?_
            exact (inv.committed p).below r (present r hr) here (Nat.zero_le _) below
        have parts : (lags ++ [(p, last - s.system.group.committed p)]).map (·.1) ++ rest.map (·.1) = assigned := by
          rw [← partitions]
          simp
        split
        · rename_i none
          subst none
          have nodup : ((lags ++ [(p, last - s.system.group.committed p)]).map (·.1)).Nodup := by
            have apart := labels.partitions
            rw [stage] at apart
            simpa [LagStage.partitions] using apart
          refine .published (labels.publish nodup) (by simpa using parts) fun x hx => ?_
          rw [publish_system]
          exact covers x hx
        · exact .committed rfl parts (fun x hx => ended x (List.mem_cons_of_mem _ hx)) covers
    · cases hs
  | assignment | fail | restart => cases goesOn

theorem log_nodup {s : State} (reach : Reachable cfg s) : s.group.log.Nodup := by
  refine reach.invariant (I := fun s => s.group.log.Nodup) (fun s a s' nodup _ hs => ?_) List.nodup_nil
  rcases (step_transition hs).log_eq with same | ⟨r, new, grown⟩
  · rwa [same]
  · rw [grown]
    exact nodup.append (List.nodup_singleton r) (by simpa using new)

/-- **The lag covers what is not processed.** When a tick that began for some partitions goes through, in any
interleaving with the deployment, the gauge has a value for these partitions and for no other one, and the value
covers the records that were in the partition when the tick began and are not processed. -/
theorem lag_covers_unprocessed {t t' : LagReporter} {as : List LagAction} {assigned : List Nat}
    (reach : Lts.Reachable (step cfg) Lts.Any {} t) (asked : t.stage = .ends assigned)
    (run : Lts.Run (step cfg) (fun _ a => a.abandons = false) t as t') (finished : t'.stage = .asleep) :
    (∀ p ∈ assigned, ∃ lag, t'.gauge p = some lag ∧
      unprocessed t.system.group.log t'.system.group.processed p ≤ lag) ∧ ∀ p ∉ assigned, t'.gauge p = none := by
  have nodup := log_nodup (reachable_system reach)
  have covers : t'.Covers t.system.group.log assigned ∧ ∀ r ∈ t.system.group.log, r ∈ t'.system.group.log := by
    refine run.invariant_from
      (I := fun s => s.Covers t.system.group.log assigned ∧ ∀ r ∈ t.system.group.log, r ∈ s.system.group.log)
      (fun s a s' reach h goesOn hs => ⟨?_, ?_⟩) reach ⟨.ends asked, fun r hr => hr⟩
    · exact h.1.step hs goesOn (labelled reach) (group_inv (reachable_system reach)) nodup h.2
    · intro r hr
      rcases step_system hs with same | ⟨b, moved⟩
      · rw [same]
        exact h.2 r hr
      · exact (step_transition moved).log_mono (h.2 r hr)
  cases covers.1 with
  | ends stage => exact absurd (stage.symm.trans finished) (by simp)
  | committed stage => exact absurd (stage.symm.trans finished) (by simp)
  | published published partitions covered =>
    refine ⟨fun p hp => ?_, fun p hp => published.stale p (partitions ▸ hp)⟩
    obtain ⟨⟨_, lag⟩, mem, rfl⟩ := List.mem_map.1 (partitions ▸ hp)
    exact ⟨lag, published.gauge _ lag mem, covered _ mem⟩

/-- A record is appended between the read of the end offsets and the read of the committed position, and is not
counted. -/
theorem lag_of_one_record : ∃ t t' : LagReporter, t'.gauge 0 = some 1 ∧ t'.system.group.log.length = 2 ∧
    (∀ p ∈ [0], ∃ lag, t'.gauge p = some lag ∧
      unprocessed t.system.group.log t'.system.group.processed p ≤ lag) ∧ ∀ p ∉ [0], t'.gauge p = none := by
  obtain ⟨t, before, h⟩ := Lts.Run.of_check_any (C := fun _ _ => true) (s := {})
    (p := fun t => t.stage = .ends [0] && (Lts.check (step {}) (fun _ a => !a.abandons) t
      [.endOffsets, .system (.duplicate (sampleRecord 0 (.fanOut (.ofNat 2))) 0 1), .committed]).any fun t' =>
        t'.stage = .asleep && t'.gauge 0 = some 1 && t'.system.group.log.length = 2)
    (show (Lts.check (step {}) _ _ (samplePublished.map .system ++ [.assignment [0]])).any _ = true by decide +kernel)
  rw [Bool.and_eq_true, decide_eq_true_eq] at h
  obtain ⟨asked, later⟩ := h
  obtain ⟨t', run, h⟩ := Lts.Run.of_check_any later
  simp only [Bool.and_eq_true, decide_eq_true_eq] at h
  obtain ⟨⟨finished, one⟩, two⟩ := h
  have run := run.mono (D := fun _ a => a.abandons = false) fun _ _ goesOn => by simpa using goesOn
  exact ⟨t, t', one, two, lag_covers_unprocessed ⟨_, before.any⟩ asked run finished⟩

end Tick

end LagReporter
end HookRelay
