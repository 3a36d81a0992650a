import HookRelay.PoisonPill
import HookRelay.Lib.Slots

/-!
# A partition advances unless a record ends the loop

What a loop that owns every partition has committed, or has asked to commit, follows its watermark, and
the watermark follows the records fetched: when no task is left, it is at the last offset seen. So the
partitions advance as long as no exception but a poison pill leaves a call, and `tolerable` says of each
step of the loop when that is.
-/

namespace HookRelay

open PyJson (Value)

/-! ## The watermark and what is committed -/

/-- `owed` is the committed position once the requests in transit are applied. -/
structure PartitionWatermark.Settled (base owed : Nat) (m : PartitionWatermark) : Prop where
  seen : m.lastSeen = -1 ∨ (base : Int) ≤ m.lastSeen
  low : -1 ≤ m.lastCommitted
  high : m.lastCommitted ≤ m.lastSeen
  caught_up : m.inFlight = ∅ → m.lastCommitted = m.lastSeen
  asked : m.lastCommitted = -1 ∨ (owed : Int) = m.lastCommitted + 1
  above : base ≤ owed

namespace PartitionWatermark

variable {base owed : Nat} {m : PartitionWatermark}

theorem Settled.start (h : m.Settled base owed) {offset : Nat} (behind : base ≤ offset) :
    (m.start offset).Settled base owed where
  seen := by
    rw [start_lastSeen]
    have := h.seen
    omega
  low := h.low
  high := by
    rw [start_lastSeen]
    exact le_trans h.high (le_max_left _ _)
  caught_up none := absurd none (Finset.insert_ne_empty _ _)
  asked := h.asked
  above := h.above

/-- The candidate is at the last offset seen, or one offset in flight is behind it. -/
theorem candidate_cases (m : PartitionWatermark) :
    (m.inFlight = ∅ ∧ m.candidate = m.lastSeen) ∨ m.candidate + 1 ∈ m.inFlight := by
  unfold candidate
  split
  · rename_i some_
    right
    rw [sub_add_cancel]
    exact m.inFlight.min'_mem some_
  · rename_i none
    exact .inl ⟨Finset.not_nonempty_iff_eq_empty.1 none, rfl⟩

theorem Settled.done (h : m.Settled base owed) (flight : ∀ o ∈ m.inFlight, (base : Int) ≤ o)
    (offset : Int) :
    (m.done offset).1.Settled base ((m.done offset).2.elim owed fun c => (c + 1).toNat) := by
  have low := h.low
  have seen := h.seen
  have high := h.high
  have bound := (m.discard offset).candidate_spec.2
  have left := (m.discard offset).candidate_cases
  have discarded : ∀ o ∈ (m.discard offset).inFlight, (base : Int) ≤ o := fun o ho =>
    flight o (Finset.mem_of_mem_erase ho)
  simp only [PartitionWatermark.done]
  split
  · -- a commit: it is not below the start, because nothing in flight is
    rename_i advanced
    have advanced : m.lastCommitted < (m.discard offset).candidate := advanced
    have bound : (m.discard offset).candidate ≤ m.lastSeen := bound
    have start : (base : Int) ≤ (m.discard offset).candidate + 1 := by
      obtain ⟨-, last⟩ | next := left
      · have last : (m.discard offset).candidate = m.lastSeen := last
        omega
      · exact discarded _ next
    exact {
      seen := seen
      low := by simp only; omega
      high := bound
      caught_up := fun none => by
        obtain ⟨-, last⟩ | next := left
        · exact last
        · exact absurd next (by simp only at none; simp [none])
      asked := .inr (by simp only [Option.elim_some]; omega)
      above := by simp only [Option.elim_some]; omega }
  · rename_i stays
    have stays : ¬ m.lastCommitted < (m.discard offset).candidate := stays
    exact {
      seen := seen
      low := low
      high := high
      caught_up := fun none => by
        obtain ⟨-, last⟩ | next := left
        · have last : (m.discard offset).candidate = m.lastSeen := last
          have reached : m.lastSeen ≤ m.lastCommitted := by omega
          exact le_antisymm high reached
        · exact absurd next (by simp only at none; simp [none])
      asked := h.asked
      above := h.above }

end PartitionWatermark

/-! ## One worker with every partition -/

namespace ConsumerGroup

variable {V τ : Type}

/-- The committed positions once the requests in transit are applied in order. -/
def owed (g : ConsumerGroup V τ) : Nat → Nat :=
  g.commits.foldl (fun positions c => Function.update positions c.1 c.2) g.committed

/-- Of the records from `base` on, those behind the worker's position were seen or are in its batch, and
what its watermarks have in flight the tasks have. -/
structure Progress (base : Nat → Nat) (g : ConsumerGroup V τ) (w : Worker V) : Prop where
  position : ∀ p, ∃ v, w.positions p = some v ∧ base p ≤ v ∧
    ∀ r ∈ g.log, r.partition = p → base p ≤ r.offset → r.offset < v →
      (r.offset : Int) ≤ (w.watermarks p).lastSeen ∨ ∃ b ∈ w.batch, b.partition = p ∧ r.offset ≤ b.offset
  batch : ∀ r ∈ w.batch, base r.partition ≤ r.offset
  flight : ∀ p, ∀ o ∈ (w.watermarks p).inFlight, (base p : Int) ≤ o ∧
    ∃ t ∈ g.tasks, t.record.partition = p ∧ (t.record.offset : Int) = o
  settled : ∀ p, (w.watermarks p).Settled (base p) (g.owed p)

variable {base : Nat → Nat} {g g' : ConsumerGroup V τ} {w : Worker V}

theorem Progress.fetch [DecidableEq V] {w' : Worker V} {r : Record V} (h : Progress base g w)
    (hf : ConsumerGroup.fetch g.log w r = some w') : Progress base g w' := by
  unfold ConsumerGroup.fetch at hf
  split at hf
  · cases hf
  rename_i v hv
  simp only [Option.ite_none_right_eq_some, Option.some.injEq] at hf
  obtain ⟨⟨-, hle, first⟩, rfl⟩ := hf
  have longer : ∀ {p o}, (∃ b ∈ w.batch, b.partition = p ∧ o ≤ b.offset) →
      ∃ b ∈ w.batch ++ [r], b.partition = p ∧ o ≤ b.offset := fun ⟨b, hb, hx⟩ =>
    ⟨b, List.mem_append_left _ hb, hx⟩
  exact {
    position := fun p => by
      by_cases hp : p = r.partition
      · subst hp
        obtain ⟨u, hu, from_, held⟩ := h.position r.partition
        obtain rfl : v = u := Option.some.inj (hv.symm.trans hu)
        refine ⟨r.offset + 1, Function.update_self .., by omega, fun r' hr' hp' hb hlt => ?_⟩
        by_cases same : r'.offset = r.offset
        · exact .inr ⟨r, by simp, rfl, Nat.le_of_eq same⟩
        · exact (held r' hr' hp' hb (first r' hr' hp' (by omega))).imp_right longer
      · obtain ⟨u, hu, from_, held⟩ := h.position p
        refine ⟨u, (Function.update_of_ne hp ..).trans hu, from_, fun r' hr' hp' hb hlt => ?_⟩
        exact (held r' hr' hp' hb hlt).imp_right longer
    batch := fun b hb => by
      obtain hb | hb := List.mem_append.1 hb
      · exact h.batch b hb
      · obtain ⟨u, hu, from_, -⟩ := h.position r.partition
        obtain rfl : v = u := Option.some.inj (hv.symm.trans hu)
        rw [List.mem_singleton.1 hb]
        exact Nat.le_trans from_ hle
    flight := h.flight
    settled := h.settled }

theorem Progress.fetchAll [DecidableEq V] {w' : Worker V} {records : List (Record V)}
    (h : Progress base g w) (hf : fetchAll g.log w records = some w') : Progress base g w' := by
  induction records generalizing w with
  | nil => cases hf; exact h
  | cons r rs ih =>
    obtain ⟨v, hv, hf⟩ := Option.bind_eq_some_iff.1 hf
    exact ih (h.fetch hv) hf

/-- The head of the batch becomes a task. -/
theorem Progress.start {r : Record V} {rest : List (Record V)} (h : Progress base g w)
    (hb : w.batch = r :: rest) (t : Task V τ) (record : t.record = r) :
    Progress base { g with tasks := g.tasks ++ [t] }
      { w.setWatermark r.partition ((w.watermarks r.partition).start r.offset) with batch := rest } := by
  have grows : ∀ p, (w.watermarks p).lastSeen ≤ (Function.update w.watermarks r.partition
      ((w.watermarks r.partition).start r.offset) p).lastSeen := by
    intro p
    by_cases hp : p = r.partition
    · subst hp
      rw [Function.update_self, PartitionWatermark.start_lastSeen]
      exact le_max_left _ _
    · rw [Function.update_of_ne hp]
  have head : base r.partition ≤ r.offset := h.batch r (by simp [hb])
  exact {
    position := fun p => by
      obtain ⟨v, hv, from_, held⟩ := h.position p
      refine ⟨v, hv, from_, fun r' hr' hp hb' hlt => ?_⟩
      obtain seen | ⟨b, mem, hp', le⟩ := held r' hr' hp hb' hlt
      · exact .inl (le_trans seen (grows p))
      · rw [hb] at mem
        obtain rfl | mem := List.mem_cons.1 mem
        · -- the record that is started
          left
          subst hp'
          simp only [Worker.setWatermark, Function.update_self, PartitionWatermark.start_lastSeen]
          omega
        · exact .inr ⟨b, mem, hp', le⟩
    batch := fun b mem => h.batch b (by rw [hb]; exact List.mem_cons_of_mem _ mem)
    flight := fun p o ho => by
      by_cases hp : p = r.partition
      · subst hp
        simp only [Worker.setWatermark, Function.update_self, PartitionWatermark.start_inFlight,
          Finset.mem_insert] at ho
        obtain rfl | ho := ho
        · exact ⟨by omega, t, by simp, by rw [record], by rw [record]⟩
        · obtain ⟨from_, u, hu, hx⟩ := h.flight _ o ho
          exact ⟨from_, u, List.mem_append_left _ hu, hx⟩
      · simp only [Worker.setWatermark, Function.update_of_ne hp] at ho
        obtain ⟨from_, u, hu, hx⟩ := h.flight p o ho
        exact ⟨from_, u, List.mem_append_left _ hu, hx⟩
    settled := fun p => by
      by_cases hp : p = r.partition
      · subst hp
        simp only [Worker.setWatermark, Function.update_self]
        exact (h.settled _).start head
      · simp only [Worker.setWatermark, Function.update_of_ne hp]
        exact h.settled p }

theorem owed_commit (g : ConsumerGroup V τ) (p v : Nat) :
    owed { g with commits := g.commits ++ [(p, v)] } = Function.update g.owed p v := by
  rw [owed, List.foldl_append]
  rfl

/-- A request applied is no longer in transit. -/
theorem owed_commitApply (h : g.commitApply 0 = some g') : g'.owed = g.owed := by
  simp only [commitApply, Option.bind_eq_bind, Option.bind_eq_some_iff, Option.some.injEq] at h
  obtain ⟨c, hc, rfl⟩ := h
  obtain ⟨rest, commits⟩ : ∃ rest, g.commits = c :: rest := by
    cases hl : g.commits with
    | nil => simp [hl] at hc
    | cons d rest => exact ⟨rest, by rw [hl] at hc; cases hc; rfl⟩
  simp only [owed, commits]
  rfl

/-- The end of a call that advances the watermark: the position it asks to commit is owed. -/
theorem Progress.finish {i : Nat} {t : Task V τ} (h : Progress base g w) (ht : g.tasks[i]? = some t) :
    Progress base
      { g with
        tasks := g.tasks.eraseIdx i
        processed := g.processed ++ [t.record]
        commits := g.commits ++ (((w.watermarks t.record.partition).done t.record.offset).2.map fun c =>
          (t.record.partition, (c + 1).toNat)).toList }
      (w.setWatermark t.record.partition ((w.watermarks t.record.partition).done t.record.offset).1) := by
  generalize hm : w.watermarks t.record.partition = m
  have lastSeen : ∀ p, (Function.update w.watermarks t.record.partition (m.done t.record.offset).1
      p).lastSeen = (w.watermarks p).lastSeen := by
    intro p
    by_cases hp : p = t.record.partition
    · rw [hp, Function.update_self, PartitionWatermark.done_lastSeen, hm]
    · rw [Function.update_of_ne hp]
  -- another offset belongs to another task
  have others : ∀ u ∈ g.tasks, u ≠ t → u ∈ g.tasks.eraseIdx i := fun u hu =>
    Slots.mem_eraseIdx_of_ne ht hu
  have owed_eq : ∀ commit : Option Int, owed
      { g with
        tasks := g.tasks.eraseIdx i
        processed := g.processed ++ [t.record]
        commits := g.commits ++ (commit.map fun c => (t.record.partition, (c + 1).toNat)).toList } =
      commit.elim g.owed fun c => Function.update g.owed t.record.partition (c + 1).toNat := by
    intro commit
    cases commit with
    | none => simp [owed]
    | some c => exact owed_commit g t.record.partition (c + 1).toNat
  exact {
    position := fun p => by
      obtain ⟨v, hv, from_, held⟩ := h.position p
      refine ⟨v, hv, from_, fun r hr hp hb hlt => ?_⟩
      simp only [Worker.setWatermark, lastSeen]
      exact held r hr hp hb hlt
    batch := h.batch
    flight := fun p o ho => by
      by_cases hp : p = t.record.partition
      · subst hp
        simp only [Worker.setWatermark, Function.update_self, PartitionWatermark.done_inFlight,
          Finset.mem_erase] at ho
        obtain ⟨from_, u, hu, hp, hx⟩ := h.flight _ o (hm ▸ ho.2)
        exact ⟨from_, u, others u hu fun same => ho.1 (by rw [← hx, same]), hp, hx⟩
      · simp only [Worker.setWatermark, Function.update_of_ne hp] at ho
        obtain ⟨from_, u, hu, hp', hx⟩ := h.flight p o ho
        exact ⟨from_, u, others u hu fun same => hp (by rw [← hp', same]), hp', hx⟩
    settled := fun p => by
      rw [owed_eq]
      by_cases hp : p = t.record.partition
      · subst hp
        have done := (h.settled t.record.partition).done
          (fun o ho => (h.flight _ o ho).1) t.record.offset
        simp only [Worker.setWatermark, Function.update_self]
        rw [hm] at done
        cases commit : (m.done t.record.offset).2 with
        | none => simpa [commit] using done
        | some c => simpa [commit] using done
      · simp only [Worker.setWatermark, Function.update_of_ne hp]
        cases (m.done t.record.offset).2 with
        | none => exact h.settled p
        | some c => simpa [Function.update_of_ne hp] using h.settled p }

end ConsumerGroup

/-! ## The calls -/

/-- What a call may hold when no exception but a poison pill has left it: rows that are there. -/
def RawCall.Sound (t : RawTables) : RawCall → Prop
  | .reading _ | .resolving _ => True
  | .delivering d => d.event ∈ t.events ∧ ∀ p ∈ d.endpoint :: d.rest, p ∈ t.endpoints
  | .ended o => o.advance = true

namespace RawCall

variable {t t' : RawTables} {c c' : RawCall}

theorem sound_next {event : Event} {n : Int} {ps : List Endpoint} (he : event ∈ t.events)
    (hp : ∀ p ∈ ps, p ∈ t.endpoints) : (RawCall.next event n ps).Sound t := by
  cases ps with
  | nil => rfl
  | cons p ps => exact ⟨he, hp⟩

theorem sound_resolve (m : RawMessage) : (RawCall.resolve t m).Sound t := by
  unfold RawCall.resolve
  split
  · rfl
  · rename_i event found
    refine sound_next (List.mem_of_find?_eq_some found) fun p hp => ?_
    unfold RawTables.targets at hp
    split at hp
    · have hp := (List.mem_filter.1 hp).1
      exact List.mem_of_find?_eq_some (Option.mem_toList.1 hp)
    · exact (List.mem_filter.1 hp).1

/-- A value of the types expected makes a message or a poison pill. -/
theorem sound_read {v : Value} (ok : readable v = true) : (RawCall.read v).Sound t := by
  unfold RawCall.read
  split
  · trivial
  · rfl
  · rename_i other
    rw [readMessage_other.1 other] at ok
    cases ok

/-- The insert finds the rows it references. -/
theorem insertAttempt_some {d : RawDelivery} (h : (RawCall.delivering d).Sound t)
    (fits : RawTables.Int4 d.attemptNumber) :
    ∃ t', t.insertAttempt ⟨d.event.id, d.endpoint.id, d.attemptNumber, .success⟩ = some t' ∧
      t'.events = t.events ∧ t'.endpoints = t.endpoints := by
  obtain ⟨event, endpoints⟩ := h
  have foreign : t.events.any (·.id = d.event.id) && t.endpoints.any (·.id = d.endpoint.id) := by
    rw [Bool.and_eq_true, List.any_eq_true, List.any_eq_true]
    exact ⟨⟨d.event, event, by simp⟩, d.endpoint, endpoints _ List.mem_cons_self, by simp⟩
  unfold RawTables.insertAttempt
  rw [if_pos fits, if_pos foreign]
  split
  · exact ⟨t, rfl, rfl, rfl⟩
  · exact ⟨_, rfl, rfl, rfl⟩

/-- A tolerable step keeps the call sound and writes attempts only. -/
theorem Sound.step (h : c.Sound t) (ok : c.tolerable = true) (hs : c.step t = some (t', c')) :
    c'.Sound t' ∧ t'.events = t.events ∧ t'.endpoints = t.endpoints := by
  cases c with
  | reading v =>
    cases hs
    exact ⟨sound_read ok, rfl, rfl⟩
  | resolving m =>
    cases hs
    exact ⟨sound_resolve m, rfl, rfl⟩
  | ended o => cases hs
  | delivering d =>
    have next : (RawCall.next d.event d.attemptNumber d.rest).Sound t :=
      sound_next h.1 fun p hp => h.2 p (List.mem_cons_of_mem _ hp)
    simp only [RawCall.step] at hs
    split at hs
    · cases hs
      refine ⟨?_, rfl, rfl⟩
      split
      · exact next
      · exact h
    · cases hs
      exact ⟨h, rfl, rfl⟩
    · rename_i stage
      have fits : RawTables.Int4 d.attemptNumber := by simpa [RawCall.tolerable, stage] using ok
      obtain ⟨t₁, inserted, events, endpoints⟩ := insertAttempt_some h fits
      rw [inserted] at hs
      cases hs
      exact ⟨sound_next (events ▸ h.1) fun p hp => endpoints ▸ h.2 p (List.mem_cons_of_mem _ hp),
        events, endpoints⟩

theorem raises_of_intolerable (bad : c.tolerable = false) (hs : c.step t = some (t', c')) :
    c' = .ended .raised := by
  cases c with
  | reading v =>
    cases hs
    rw [RawCall.read, readMessage_other.2 bad]
  | delivering d =>
    simp only [RawCall.tolerable, Bool.or_eq_false_iff, decide_eq_false_iff_not, not_not] at bad
    simp only [RawCall.step, bad.1, RawTables.insertAttempt, bad.2, if_false, Option.some.injEq,
      Prod.mk.injEq] at hs
    exact hs.2.symm
  | resolving | ended => cases bad

/-- Soundness is about the events and the endpoints. -/
theorem Sound.of_tables (h : c.Sound t) (events : t'.events = t.events)
    (endpoints : t'.endpoints = t.endpoints) : c.Sound t' := by
  cases c with
  | delivering d => exact ⟨events ▸ h.1, fun p hp => endpoints ▸ h.2 p hp⟩
  | reading | resolving => trivial
  | ended o => exact h

end RawCall

/-! ## The loop -/

namespace DeliveryLoop

structure Inv (limit : Nat) (base : Nat → Nat) (log : List (Record (List UInt8))) (s : DeliveryLoop) :
    Prop where
  running : s.exited = false
  log : s.group.log = log
  calls : ∀ t ∈ s.group.tasks, t.data.Sound s.tables
  worker : ∃ w, s.group.workers = [w] ∧ w.fatal = false ∧
    (∀ r ∈ w.batch, (deserialize limit r.value).isSome) ∧ s.group.Progress base w

variable {limit concurrency : Nat} {base : Nat → Nat} {log : List (Record (List UInt8))}
  {s s' : DeliveryLoop}

theorem Inv.initial (tables : RawTables) : Inv limit base log (initial log base tables) where
  running := rfl
  log := rfl
  calls t ht := by cases ht
  worker := ⟨_, rfl, rfl, fun r hr => (by cases hr), {
    position := fun p => ⟨base p, rfl, Nat.le_refl _, fun r _ _ hb hlt => by omega⟩
    batch := fun r hr => by cases hr
    flight := fun p o ho => by cases ho
    settled := fun p => ⟨.inl rfl, Int.le_refl _, Int.le_refl _, fun _ => rfl, .inl rfl, Nat.le_refl _⟩ }⟩

theorem Inv.getmany (h : Inv limit base log s) {records : List (Record (List UInt8))}
    (ok : s.tolerable limit (.getmany records) = true)
    (hs : s.getmany limit concurrency records = some s') : Inv limit base log s' := by
  obtain ⟨w, alone, fatal, batch, progress⟩ := h.worker
  have decoded : (records.all fun r => (deserialize limit r.value).isSome) = true := ok
  simp only [DeliveryLoop.getmany, decoded, if_true, ConsumerGroup.getmany, alone,
    List.getElem?_cons_zero, Option.bind_eq_bind, Option.bind_some, Option.bind_eq_some_iff,
    Option.ite_none_right_eq_some, Option.some.injEq] at hs
  obtain ⟨g, ⟨-, w', fetched, rfl⟩, rfl⟩ := hs
  obtain ⟨batch', fatal', -⟩ := ConsumerGroup.fetchAll_batch fetched
  have progress := progress.fetchAll fetched
  exact {
    running := h.running
    log := h.log
    calls := h.calls
    worker := by
      refine ⟨w', rfl, fatal'.trans fatal, fun r hr => ?_, progress.1, progress.2, progress.3, progress.4⟩
      rw [batch'] at hr
      exact (List.mem_append.1 hr).elim (batch r) (List.all_eq_true.1 decoded r) }

theorem Inv.start (h : Inv limit base log s) (hs : s.start limit concurrency = some s') :
    Inv limit base log s' := by
  obtain ⟨w, alone, fatal, batch, progress⟩ := h.worker
  obtain ⟨g, started, rfl⟩ := Option.map_eq_some_iff.1 hs
  simp only [ConsumerGroup.start, alone, List.getElem?_cons_zero, Option.bind_eq_bind,
    Option.bind_some] at started
  split at started
  · cases started
  rename_i r rest hb
  simp only [Option.ite_none_right_eq_some, Option.some.injEq] at started
  obtain ⟨-, rfl⟩ := started
  have progress := progress.start hb ⟨0, r, RawCall.init limit r.value⟩ rfl
  exact {
    running := h.running
    log := h.log
    calls := fun t ht => by
      obtain ht | ht := List.mem_append.1 ht
      · exact h.calls t ht
      · -- a record that was deserialized
        obtain ⟨v, value⟩ := Option.isSome_iff_exists.1 (batch r (by simp [hb]))
        rw [List.mem_singleton.1 ht]
        simp only [RawCall.init, value]
        trivial
    worker := ⟨_, rfl, fatal, fun r' hr' =>
      batch r' (by rw [hb]; exact List.mem_cons_of_mem _ hr'), progress.1, progress.2, progress.3,
      progress.4⟩ }

theorem Inv.call (h : Inv limit base log s) {i : Nat} (ok : s.tolerable limit (.call i) = true)
    (hs : s.call i = some s') : Inv limit base log s' := by
  obtain ⟨w, alone, fatal, batch, progress⟩ := h.worker
  simp only [DeliveryLoop.call, ConsumerGroup.advance, Option.bind_eq_bind, Option.bind_eq_some_iff,
    Option.some.injEq] at hs
  obtain ⟨t, ht, ⟨tables, data⟩, moved, g, ⟨t', ht', rfl⟩, rfl⟩ := hs
  obtain rfl : t = t' := Option.some.inj (ht.symm.trans ht')
  have ok : t.data.tolerable = true := by simpa [tolerable, ht] using ok
  obtain ⟨sound, events, endpoints⟩ := (h.calls t (List.mem_of_getElem? ht)).step ok moved
  -- the tasks keep their records
  have kept : ∀ u ∈ s.group.tasks, ∃ u' ∈ s.group.tasks.set i { t with data }, u'.record = u.record := by
    intro u hu
    by_cases same : u = t
    · exact ⟨_, List.mem_set (List.getElem?_eq_some_iff.1 ht).1 _, by rw [same]⟩
    · exact ⟨u, Slots.mem_set_of_ne ht hu same, rfl⟩
  exact {
    running := h.running
    log := h.log
    calls := fun u hu => by
      obtain hu | rfl := List.mem_or_eq_of_mem_set hu
      · exact (h.calls u hu).of_tables events endpoints
      · exact sound
    worker := ⟨w, alone, fatal, batch, {
      position := progress.position
      batch := progress.batch
      flight := fun p o ho => by
        obtain ⟨from_, u, hu, hp, hx⟩ := progress.flight p o ho
        obtain ⟨u', hu', record⟩ := kept u hu
        exact ⟨from_, u', hu', by rw [record, hp], by rw [record, hx]⟩
      settled := progress.settled }⟩ }

theorem Inv.finish (h : Inv limit base log s) {i : Nat} (hs : s.finish i = some s') :
    Inv limit base log s' := by
  obtain ⟨w, alone, fatal, batch, progress⟩ := h.worker
  simp only [DeliveryLoop.finish, Option.bind_eq_bind, Option.bind_eq_some_iff] at hs
  obtain ⟨t, ht, hs⟩ := hs
  have sound := h.calls t (List.mem_of_getElem? ht)
  split at hs
  rotate_left
  · cases hs
  rename_i o ended
  have advance : o.advance = true := by rwa [ended] at sound
  obtain ⟨g, finished, rfl⟩ := Option.map_eq_some_iff.1 hs
  simp only [ConsumerGroup.finish, ht, advance, if_true, Option.bind_eq_bind, Option.bind_some,
    Option.bind_eq_some_iff, Option.some.injEq] at finished
  obtain ⟨w', at_, rfl⟩ := finished
  obtain ⟨zero, rfl⟩ : t.worker = 0 ∧ w = w' := by
    rw [alone] at at_
    cases index : t.worker with
    | zero => exact ⟨rfl, by rw [index] at at_; exact Option.some.inj at_⟩
    | succ n => rw [index] at at_; cases at_
  have progress := progress.finish ht
  exact {
    running := h.running
    log := h.log
    calls := fun u hu => h.calls u (List.mem_of_mem_eraseIdx hu)
    worker := ⟨w.release.setWatermark t.record.partition
        ((w.release.watermarks t.record.partition).done t.record.offset).1,
      by simp only [alone, zero, List.set_cons_zero], fatal, batch, progress.1, progress.2, progress.3,
      progress.4⟩ }

theorem Inv.commitApply (h : Inv limit base log s) {g : ConsumerGroup (List UInt8) RawCall}
    (hs : s.group.commitApply 0 = some g) : Inv limit base log { s with group := g } := by
  obtain ⟨w, alone, fatal, batch, progress⟩ := h.worker
  have owed := ConsumerGroup.owed_commitApply hs
  simp only [ConsumerGroup.commitApply, Option.bind_eq_bind, Option.bind_eq_some_iff,
    Option.some.injEq] at hs
  obtain ⟨c, -, rfl⟩ := hs
  exact {
    running := h.running
    log := h.log
    calls := h.calls
    worker := ⟨w, alone, fatal, batch, progress.1, progress.2, progress.3, fun p =>
      owed ▸ progress.settled p⟩ }

theorem Inv.step (h : Inv limit base log s) {a : Action} (ok : s.tolerable limit a = true)
    (hs : s.step limit concurrency a = some s') : Inv limit base log s' := by
  unfold DeliveryLoop.step at hs
  split at hs
  · cases hs
  cases a with
  | getmany records => exact h.getmany ok hs
  | raise =>
    -- no call has set `_fatal_exc`
    obtain ⟨w, alone, fatal, -⟩ := h.worker
    simp [DeliveryLoop.raise, alone, fatal] at hs
  | start => exact h.start hs
  | call i => exact h.call ok hs
  | finish i => exact h.finish hs
  | commitApply =>
    obtain ⟨g, applied, rfl⟩ := Option.map_eq_some_iff.1 hs
    exact h.commitApply applied

/-- In the end every partition is committed past its last record. -/
theorem Inv.committed (h : Inv limit base log s) (drained : s.Drained) :
    ∀ r ∈ log, r.offset < s.group.committed r.partition := by
  obtain ⟨w, alone, -, -, progress⟩ := h.worker
  obtain ⟨empty, fetched⟩ := drained.fetched w (by simp [alone])
  intro r hr
  obtain ⟨v, hv, -, held⟩ := progress.position r.partition
  have settled := progress.settled r.partition
  have applied : s.group.owed = s.group.committed := by rw [ConsumerGroup.owed, drained.applied]; rfl
  rw [applied] at settled
  have none : (w.watermarks r.partition).inFlight = ∅ := by
    refine Finset.eq_empty_of_forall_notMem fun o ho => ?_
    obtain ⟨-, t, ht, -⟩ := progress.flight _ o ho
    rw [drained.finished] at ht
    cases ht
  have level := settled.caught_up none
  have above := settled.above
  by_cases old : r.offset < base r.partition
  · omega
  · have behind := fetched r (h.log ▸ hr) v hv
    obtain seen | ⟨b, hb, -⟩ := held r (h.log ▸ hr) rfl (by omega) behind
    · have asked := settled.asked
      omega
    · rw [empty] at hb
      cases hb

/-- A loop whose steps are all tolerable does not end, and commits every partition past its last
record. -/
theorem partitions_advance {tables : RawTables} {as : List Action}
    (run : Lts.Run (step limit concurrency) (fun s a => s.tolerable limit a = true)
      (initial log base tables) as s) :
    s.exited = false ∧ (s.Drained → ∀ r ∈ log, r.offset < s.group.committed r.partition) := by
  have inv : Inv limit base log s :=
    run.invariant (fun _ _ _ h ok hs => h.step ok hs) (Inv.initial tables)
  exact ⟨inv.running, inv.committed⟩

/-! ## What an intolerable step does -/

/-- The loop has ended with an exception, or will when it is back at its head. -/
def Broken (s : DeliveryLoop) : Prop :=
  s.exited = true ∨ (∃ w ∈ s.group.workers, w.fatal = true) ∨ ∃ t ∈ s.group.tasks, t.data = .ended .raised

theorem Inv.not_broken (h : Inv limit base log s) : ¬ s.Broken := by
  obtain ⟨w, alone, fatal, -⟩ := h.worker
  rintro (exited | ⟨w', hw', fatal'⟩ | ⟨t, ht, raised⟩)
  · rw [h.running] at exited
    cases exited
  · rw [alone, List.mem_singleton] at hw'
    rw [hw', fatal] at fatal'
    cases fatal'
  · have sound := h.calls t ht
    rw [raised] at sound
    cases sound

/-- A worker with `_fatal_exc` set keeps it. -/
theorem fatal_set {V : Type} {ws : List (Worker V)} {i : Nat} {v v' : Worker V} (hv : ws[i]? = some v)
    (keeps : v.fatal = true → v'.fatal = true) (fatal : ∃ w ∈ ws, w.fatal = true) :
    ∃ w ∈ ws.set i v', w.fatal = true := by
  obtain ⟨w, hw, fatal⟩ := fatal
  by_cases same : w = v
  · exact ⟨v', List.mem_set (List.getElem?_eq_some_iff.1 hv).1 _, keeps (same ▸ fatal)⟩
  · exact ⟨w, Slots.mem_set_of_ne hv hw same, fatal⟩

theorem broken_getmany {records : List (Record (List UInt8))} (h : s.Broken) (running : s.exited ≠ true)
    (hs : s.getmany limit concurrency records = some s') : s'.Broken := by
  simp only [DeliveryLoop.getmany, ConsumerGroup.getmany, Option.bind_eq_bind, Option.bind_eq_some_iff,
    Option.ite_none_right_eq_some, Option.some.injEq] at hs
  obtain ⟨g, ⟨w, hw, -, w', fetched, rfl⟩, hs⟩ := hs
  split at hs
  · cases hs
    obtain fatal | raised := h.resolve_left running
    · exact .inr (.inl (fatal_set hw (ConsumerGroup.fetchAll_batch fetched).2.1.trans fatal))
    · exact .inr (.inr raised)
  · cases hs
    exact .inl rfl

theorem broken_start (h : s.Broken) (running : s.exited ≠ true)
    (hs : s.start limit concurrency = some s') : s'.Broken := by
  obtain ⟨g, started, rfl⟩ := Option.map_eq_some_iff.1 hs
  simp only [ConsumerGroup.start, Option.bind_eq_bind, Option.bind_eq_some_iff] at started
  obtain ⟨w, hw, started⟩ := started
  split at started
  · cases started
  simp only [Option.ite_none_right_eq_some, Option.some.injEq] at started
  obtain ⟨-, rfl⟩ := started
  obtain fatal | ⟨t, ht, raised⟩ := h.resolve_left running
  · exact .inr (.inl (fatal_set hw id fatal))
  · exact .inr (.inr ⟨t, List.mem_append_left _ ht, raised⟩)

theorem broken_call {i : Nat} (h : s.Broken) (running : s.exited ≠ true) (hs : s.call i = some s') :
    s'.Broken := by
  simp only [DeliveryLoop.call, ConsumerGroup.advance, Option.bind_eq_bind, Option.bind_eq_some_iff,
    Option.some.injEq] at hs
  obtain ⟨t, ht, ⟨tables, data⟩, moved, g, ⟨t', ht', rfl⟩, rfl⟩ := hs
  obtain fatal | ⟨u, hu, raised⟩ := h.resolve_left running
  · exact .inr (.inl fatal)
  have other : u ≠ t := by
    rintro rfl
    rw [raised] at moved
    cases moved
  exact .inr (.inr ⟨u, Slots.mem_set_of_ne ht hu other, raised⟩)

theorem broken_finish {i : Nat} (h : s.Broken) (running : s.exited ≠ true) (hs : s.finish i = some s') :
    s'.Broken := by
  simp only [DeliveryLoop.finish, Option.bind_eq_bind, Option.bind_eq_some_iff] at hs
  obtain ⟨t, ht, hs⟩ := hs
  split at hs
  rotate_left
  · cases hs
  rename_i o ended
  obtain ⟨g, finished, rfl⟩ := Option.map_eq_some_iff.1 hs
  simp only [ConsumerGroup.finish, ht, Option.bind_eq_bind, Option.bind_some,
    Option.bind_eq_some_iff] at finished
  obtain ⟨w, hw, finished⟩ := finished
  have others : o ≠ .raised → (∃ u ∈ s.group.tasks, u.data = .ended .raised) →
      ∃ u ∈ s.group.tasks.eraseIdx i, u.data = .ended .raised := by
    rintro other ⟨u, hu, raised⟩
    refine ⟨u, Slots.mem_eraseIdx_of_ne ht hu ?_, raised⟩
    rintro rfl
    rw [ended] at raised
    exact other (by injection raised)
  have h := h.resolve_left running
  split at finished
  · rename_i advance
    cases finished
    exact .inr (h.imp (fatal_set hw id) (others fun raised => by rw [raised] at advance; cases advance))
  · split at finished
    · cases finished
      exact .inr (.inl ⟨_, List.mem_set (List.getElem?_eq_some_iff.1 hw).1 _, rfl⟩)
    · rename_i other
      cases finished
      exact .inr (h.imp (fatal_set hw id) (others other))

theorem Broken.step {a : Action} (h : s.Broken) (hs : s.step limit concurrency a = some s') :
    s'.Broken := by
  unfold DeliveryLoop.step at hs
  split at hs
  · cases hs
  rename_i running
  cases a with
  | getmany records => exact broken_getmany h running hs
  | raise =>
    simp only [DeliveryLoop.raise, Option.bind_eq_bind, Option.bind_eq_some_iff,
      Option.ite_none_right_eq_some, Option.some.injEq] at hs
    obtain ⟨w, -, -, rfl⟩ := hs
    exact .inl rfl
  | start => exact broken_start h running hs
  | call i => exact broken_call h running hs
  | finish i => exact broken_finish h running hs
  | commitApply =>
    obtain ⟨g, applied, rfl⟩ := Option.map_eq_some_iff.1 hs
    simp only [ConsumerGroup.commitApply, Option.bind_eq_bind, Option.bind_eq_some_iff,
      Option.some.injEq] at applied
    obtain ⟨c, -, rfl⟩ := applied
    exact h

theorem broken_of_intolerable {a : Action} (bad : s.tolerable limit a = false)
    (hs : s.step limit concurrency a = some s') : s'.Broken := by
  unfold DeliveryLoop.step at hs
  split at hs
  · cases hs
  cases a with
  | getmany records =>
    have raises : (records.all fun r => (deserialize limit r.value).isSome) = false := bad
    simp only [DeliveryLoop.getmany, raises, Bool.false_eq_true, if_false, Option.bind_eq_bind,
      Option.bind_eq_some_iff, Option.some.injEq] at hs
    obtain ⟨g, -, rfl⟩ := hs
    exact .inl rfl
  | call i =>
    simp only [DeliveryLoop.call, ConsumerGroup.advance, Option.bind_eq_bind, Option.bind_eq_some_iff,
      Option.some.injEq] at hs
    obtain ⟨t, ht, ⟨tables, data⟩, moved, g, ⟨t', ht', rfl⟩, rfl⟩ := hs
    have bad : t.data.tolerable = false := by simpa [tolerable, ht] using bad
    refine .inr (.inr ⟨_, List.mem_set (List.getElem?_eq_some_iff.1 ht').1 _, ?_⟩)
    exact RawCall.raises_of_intolerable bad moved
  | raise | start | finish | commitApply => cases bad

/-- The steps of a loop are tolerable if and only if it is not broken. -/
theorem run_tolerable_iff {tables : RawTables} {as : List Action}
    (run : Lts.Run (step limit concurrency) Lts.Any (initial log base tables) as s) :
    Lts.Run (step limit concurrency) (fun s a => s.tolerable limit a = true) (initial log base tables) as s ↔
      ¬ s.Broken := by
  constructor
  · intro tolerable
    exact (tolerable.invariant (fun _ _ _ h ok hs => h.step ok hs) (Inv.initial tables)).not_broken
  · intro sound
    generalize initial log base tables = s₀ at run
    induction run with
    | nil => exact .nil _
    | @cons s₀ s₁ s a as _ hs run ih =>
      cases ok : s₀.tolerable limit a with
      | true => exact .cons ok hs (ih sound)
      | false =>
        have broken := broken_of_intolerable ok hs
        exact absurd (run.invariant (fun _ _ _ h _ hs => h.step hs) broken) sound

/-- An object without fields is a poison pill, and the record behind it is delivered. -/
def sampleLog : List (Record (List UInt8)) :=
  [⟨0, 0, [0x7b, 0x7d]⟩, ⟨0, 1, "\x7b\"event_id\": \"00000000-0000-0000-0000-000000000001\"\x7d".toList.map
    fun c => UInt8.ofNat c.toNat⟩]

def sampleTables : RawTables where
  endpoints := [⟨⟨2⟩, "https://a.example", none, ["order.created"], "secret", true⟩]
  events := [⟨⟨1⟩, "order.created", "key", .null, .pending⟩]
  attempts := []

theorem partition_advances_past_pill : ∃ as s,
    Lts.Run (step 1000 10) Lts.Any (initial sampleLog (fun _ => 0) sampleTables) as s ∧
      s.exited = false ∧ ∀ r ∈ sampleLog, r.offset < s.group.committed r.partition := by
  obtain ⟨s, run, drained⟩ := Lts.Run.of_check_any (C := fun (s : DeliveryLoop) a => s.tolerable 1000 a)
    (p := fun s : DeliveryLoop => decide s.Drained) (s := initial sampleLog (fun _ => 0) sampleTables)
    (show (Lts.check (step 1000 10) _ _ [.getmany sampleLog, .start, .start, .call 1, .call 0, .call 1,
      .call 1, .call 1, .call 1, .finish 1, .finish 0, .commitApply]).any _ = true by decide +kernel)
  obtain ⟨running, committed⟩ := partitions_advance run
  exact ⟨_, s, run.any, running, committed (of_decide_eq_true drained)⟩

/-- A list is no message: `message["event_id"]` is a `TypeError`, the loop ends with it, and the
partition stays where it is. -/
theorem list_record_ends_loop : ∃ as s,
    Lts.Run (step 1000 10) Lts.Any (initial [⟨0, 0, [0x5b, 0x5d]⟩] (fun _ => 0) sampleTables) as s ∧
      s.exited = true ∧ s.group.committed 0 = 0 := by
  obtain ⟨s, run, ended⟩ := Lts.Run.of_check_any (C := fun _ _ => true)
    (p := fun s : DeliveryLoop => s.exited && s.group.committed 0 == 0)
    (s := initial [⟨0, 0, [0x5b, 0x5d]⟩] (fun _ => 0) sampleTables)
    (show (Lts.check (step 1000 10) _ _ [.getmany [⟨0, 0, [0x5b, 0x5d]⟩], .start, .call 0, .finish 0,
      .raise]).any _ = true by decide +kernel)
  simp only [Bool.and_eq_true, beq_iff_eq] at ended
  exact ⟨_, s, run.any, ended⟩

end DeliveryLoop

end HookRelay
