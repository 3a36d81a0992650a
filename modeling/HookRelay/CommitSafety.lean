import HookRelay.ConsumerGroup
import HookRelay.Lib.Lts

/-!
# Committed offsets never skip an unprocessed record

The argument is one sentence per store. A watermark accounts for every record up to the last
offset it saw: the record was processed or its offset is in flight. The records a worker holds
between its watermark and its fetch position are the ones in its batch, in order. So the
candidate of `done`, which lies below everything in flight, has only processed records below it,
and a commit request stays true however late it is applied, since records stay processed.

`base p` is the position of partition `p` at the start; nothing is said about records before it.
-/

namespace HookRelay.ConsumerGroup

variable {V τ : Type}

section Inv

variable (base : Nat → Nat) (log processed : List (Record V))

/-- Every record of partition `p` from the start up to position `v` was processed, and no record
still to be appended can fall below `v`. -/
structure Acked (p v : Nat) : Prop where
  within : v ≤ base p ∨ ∃ r ∈ log, r.partition = p ∧ v ≤ r.offset + 1
  below : ∀ r ∈ log, r.partition = p → base p ≤ r.offset → r.offset < v → r ∈ processed

/-- The record was processed, or the worker's watermark has seen its offset. -/
def Seen (w : Worker V) (r : Record V) : Prop :=
  r ∈ processed ∨ (r.offset : Int) ≤ (w.watermarks r.partition).lastSeen

structure WorkerInv (w : Worker V) : Prop where
  lastSeen : ∀ p, (w.watermarks p).lastSeen = -1 ∨
    ∃ r ∈ log, r.partition = p ∧ (r.offset : Int) = (w.watermarks p).lastSeen
  covered : ∀ r ∈ log, base r.partition ≤ r.offset →
    (r.offset : Int) ≤ (w.watermarks r.partition).lastSeen →
    r ∈ processed ∨ (r.offset : Int) ∈ (w.watermarks r.partition).inFlight
  batch_log : ∀ r ∈ w.batch, r ∈ log
  batch : ∀ before r after, w.batch = before ++ r :: after →
    ∀ r' ∈ log, r'.partition = r.partition → base r'.partition ≤ r'.offset → r'.offset < r.offset →
      Seen processed w r' ∨ r' ∈ before
  position : ∀ p v, w.positions p = some v →
    (v ≤ base p ∨ ∃ r ∈ log, r.partition = p ∧ v ≤ r.offset + 1) ∧
    ∀ r ∈ log, r.partition = p → base p ≤ r.offset → r.offset < v → Seen processed w r ∨ r ∈ w.batch

end Inv

/-- The invariant of the consumer group. -/
structure Inv (base : Nat → Nat) (g : ConsumerGroup V τ) : Prop where
  offsets : ∀ r ∈ g.log, ∀ r' ∈ g.log, r.partition = r'.partition → r.offset = r'.offset → r = r'
  workers : ∀ w ∈ g.workers, WorkerInv base g.log g.processed w
  tasks : ∀ t ∈ g.tasks, t.record ∈ g.log
  commits : ∀ c ∈ g.commits, Acked base g.log g.processed c.1 c.2
  committed : ∀ p, Acked base g.log g.processed p (g.committed p)

variable {base : Nat → Nat} {log processed : List (Record V)}

/-! ## What grows keeps the facts -/

theorem Acked.mono {more : List (Record V)} {p v : Nat} (h : Acked base log processed p v) :
    Acked base log (processed ++ more) p v :=
  ⟨h.within, fun r hr hp hb hv => List.mem_append_left _ (h.below r hr hp hb hv)⟩

theorem WorkerInv.mono {more : List (Record V)} {w : Worker V}
    (h : WorkerInv base log processed w) : WorkerInv base log (processed ++ more) w where
  lastSeen := h.lastSeen
  covered r hr hb hs := (h.covered r hr hb hs).imp_left (List.mem_append_left _)
  batch_log := h.batch_log
  batch b r a he r' hr' hp hb hlt :=
    (h.batch b r a he r' hr' hp hb hlt).imp_left (·.imp_left (List.mem_append_left _))
  position p v hv := ⟨(h.position p v hv).1, fun r hr hp hb hlt =>
    ((h.position p v hv).2 r hr hp hb hlt).imp_left (·.imp_left (List.mem_append_left _))⟩

section Append

variable {new : Record V} (behind : ∀ r ∈ log, r.partition = new.partition → r.offset < new.offset)
include behind

/-- A record appended later is not below a position the broker or a worker already had. -/
theorem not_below_of_within {v : Nat}
    (h : v ≤ base new.partition ∨ ∃ r ∈ log, r.partition = new.partition ∧ v ≤ r.offset + 1)
    (hb : base new.partition ≤ new.offset) : ¬ new.offset < v := by
  rcases h with h | ⟨r, hr, hp, hv⟩
  · omega
  · have := behind r hr hp
    omega

theorem Acked.append {p v : Nat} (h : Acked base log processed p v) :
    Acked base (log ++ [new]) processed p v where
  within := h.within.imp_right fun ⟨r, hr, hx⟩ => ⟨r, List.mem_append_left _ hr, hx⟩
  below r hr hp hb hv := by
    rcases List.mem_append.1 hr with hr | hr
    · exact h.below r hr hp hb hv
    · rw [List.mem_singleton] at hr
      subst hr hp
      exact absurd hv (not_below_of_within behind h.within hb)

theorem WorkerInv.append {w : Worker V} (h : WorkerInv base log processed w) :
    WorkerInv base (log ++ [new]) processed w where
  lastSeen p := (h.lastSeen p).imp_right fun ⟨r, hr, hx⟩ => ⟨r, List.mem_append_left _ hr, hx⟩
  covered r hr hb hs := by
    rcases List.mem_append.1 hr with hr | hr
    · exact h.covered r hr hb hs
    · rw [List.mem_singleton] at hr
      subst hr
      rcases h.lastSeen r.partition with none | ⟨r', hr', hp, ho⟩
      · omega
      · have := behind r' hr' hp
        omega
  batch_log r hr := List.mem_append_left _ (h.batch_log r hr)
  batch before r after he r' hr' hp hb hlt := by
    rcases List.mem_append.1 hr' with hr' | hr'
    · exact h.batch before r after he r' hr' hp hb hlt
    · rw [List.mem_singleton] at hr'
      subst hr'
      have := behind r (h.batch_log r (he ▸ by simp)) hp.symm
      omega
  position p v hv := by
    obtain ⟨within, held⟩ := h.position p v hv
    refine ⟨within.imp_right fun ⟨r, hr, hx⟩ => ⟨r, List.mem_append_left _ hr, hx⟩, ?_⟩
    intro r hr hp hb hlt
    rcases List.mem_append.1 hr with hr | hr
    · exact held r hr hp hb hlt
    · rw [List.mem_singleton] at hr
      subst hr hp
      exact absurd hlt (not_below_of_within behind within hb)

end Append

/-! ## The worker's steps -/

theorem WorkerInv.fresh : WorkerInv base log processed {} where
  lastSeen _ := .inl rfl
  covered r _ _ hs := by simp only at hs; omega
  batch_log r hr := by cases hr
  batch b r a he := by cases b <;> cases he
  position p v hv := by cases hv

theorem WorkerInv.seek {w : Worker V} (h : WorkerInv base log processed w) {p v : Nat}
    (ack : Acked base log processed p v) : WorkerInv base log processed (w.seek p (some v)) where
  lastSeen := h.lastSeen
  covered := h.covered
  batch_log := h.batch_log
  batch := h.batch
  position q u hu := by
    by_cases hq : q = p
    · subst hq
      simp only [Worker.seek, Function.update_self, Option.some.injEq] at hu
      subst hu
      exact ⟨ack.within, fun r hr hp hb hlt => .inl (.inl (ack.below r hr hp hb hlt))⟩
    · exact h.position q u (by simpa [Worker.seek, Function.update_of_ne hq] using hu)

theorem WorkerInv.drop {w : Worker V} (h : WorkerInv base log processed w) (p : Nat) :
    WorkerInv base log processed (w.seek p none) where
  lastSeen := h.lastSeen
  covered := h.covered
  batch_log := h.batch_log
  batch := h.batch
  position q u hu := by
    by_cases hq : q = p
    · subst hq; simp [Worker.seek] at hu
    · exact h.position q u (by simpa [Worker.seek, Function.update_of_ne hq] using hu)

/-- The semaphore has no part in the invariant. -/
theorem WorkerInv.acquire {w : Worker V} (h : WorkerInv base log processed w) :
    WorkerInv base log processed w.acquire :=
  ⟨h.1, h.2, h.3, h.4, h.5⟩

theorem WorkerInv.release {w : Worker V} (h : WorkerInv base log processed w) :
    WorkerInv base log processed w.release :=
  ⟨h.1, h.2, h.3, h.4, h.5⟩

section

variable [DecidableEq V]

theorem WorkerInv.fetch {w w' : Worker V} {r : Record V} (h : WorkerInv base log processed w)
    (offsets : ∀ r ∈ log, ∀ r' ∈ log, r.partition = r'.partition → r.offset = r'.offset → r = r')
    (hf : fetch log w r = some w') : WorkerInv base log processed w' := by
  unfold ConsumerGroup.fetch at hf
  split at hf
  · cases hf
  rename_i v hv
  simp only [Option.ite_none_right_eq_some, Option.some.injEq] at hf
  obtain ⟨⟨hr, hle, first⟩, rfl⟩ := hf
  obtain ⟨within, held⟩ := h.position _ v hv
  -- Everything before the fetched record is behind the old position.
  have before : ∀ r' ∈ log, r'.partition = r.partition → base r'.partition ≤ r'.offset →
      r'.offset < r.offset → Seen processed w r' ∨ r' ∈ w.batch := fun r' hr' hp hb hlt =>
    held r' hr' hp (hp ▸ hb) (first r' hr' hp hlt)
  exact {
    lastSeen := h.lastSeen
    covered := h.covered
    batch_log := fun r' hr' => by
      rcases List.mem_append.1 hr' with hr' | hr'
      · exact h.batch_log r' hr'
      · rwa [List.mem_singleton.1 hr']
    batch := fun pre r₀ post he r' hr' hp hb hlt => by
      have he : w.batch ++ [r] = pre ++ r₀ :: post := he
      rcases List.eq_nil_or_concat post with rfl | ⟨post, last, rfl⟩
      · obtain ⟨rfl, hl⟩ := List.append_inj' he rfl
        cases hl
        exact before r' hr' hp hb hlt
      · rw [List.concat_eq_append, ← List.cons_append, ← List.append_assoc] at he
        exact h.batch pre r₀ post (List.append_inj' he rfl).1 r' hr' hp hb hlt
    position := fun q u hu => by
      by_cases hq : q = r.partition
      · subst hq
        simp only [Worker.seek, Function.update_self, Option.some.injEq] at hu
        subst hu
        refine ⟨.inr ⟨r, hr, rfl, le_refl _⟩, fun r' hr' hp hb hlt => ?_⟩
        by_cases same : r'.offset = r.offset
        · rw [offsets r' hr' r hr hp same]
          exact .inr (by simp)
        · exact (before r' hr' hp (hp ▸ hb) (by omega)).imp_right (List.mem_append_left _)
      · obtain ⟨within, held⟩ := h.position q u (by
          simpa [Worker.seek, Function.update_of_ne hq] using hu)
        exact ⟨within, fun r' hr' hp hb hlt =>
          (held r' hr' hp hb hlt).imp_right (List.mem_append_left _)⟩ }

theorem WorkerInv.fetchAll {w w' : Worker V} {records : List (Record V)}
    (h : WorkerInv base log processed w)
    (offsets : ∀ r ∈ log, ∀ r' ∈ log, r.partition = r'.partition → r.offset = r'.offset → r = r')
    (hf : fetchAll log w records = some w') : WorkerInv base log processed w' := by
  induction records generalizing w with
  | nil => cases hf; exact h
  | cons r rs ih =>
    obtain ⟨v, hv, hf⟩ := Option.bind_eq_some_iff.1 hf
    exact ih (h.fetch offsets hv) hf

end

theorem WorkerInv.start {w : Worker V} {r : Record V} {rest : List (Record V)}
    (h : WorkerInv base log processed w) (hb : w.batch = r :: rest) :
    WorkerInv base log processed { w.setWatermark r.partition
      ((w.watermarks r.partition).start r.offset) with batch := rest } := by
  have hr : r ∈ log := h.batch_log r (by simp [hb])
  have at_r : ∀ {p}, p = r.partition → (Function.update w.watermarks r.partition
      ((w.watermarks r.partition).start r.offset)) p = (w.watermarks r.partition).start r.offset :=
    fun hp => by rw [hp, Function.update_self]
  -- What the old watermark had seen the new one has seen, and the started record too.
  have seen : ∀ r', Seen processed w r' ∨ r' = r → Seen processed { w.setWatermark r.partition
      ((w.watermarks r.partition).start r.offset) with batch := rest } r' := by
    intro r' hs
    by_cases hp : r'.partition = r.partition
    · rcases hs with (hs | hs) | rfl
      · exact .inl hs
      · right
        simp only [Worker.setWatermark, at_r hp, PartitionWatermark.start_lastSeen]
        rw [hp] at hs; omega
      · right
        simp only [Worker.setWatermark, at_r rfl, PartitionWatermark.start_lastSeen]
        omega
    · rcases hs with hs | rfl
      · simpa [Seen, Worker.setWatermark, Function.update_of_ne hp] using hs
      · exact absurd rfl hp
  exact {
    lastSeen := fun p => by
      by_cases hp : p = r.partition
      · subst hp
        simp only [Worker.setWatermark, Function.update_self, PartitionWatermark.start_lastSeen]
        rcases le_total (w.watermarks r.partition).lastSeen r.offset with hle | hle
        · exact .inr ⟨r, hr, rfl, by omega⟩
        · rw [max_eq_left hle]
          exact h.lastSeen r.partition
      · simpa [Worker.setWatermark, Function.update_of_ne hp] using h.lastSeen p
    covered := fun r' hr' hb' hs => by
      by_cases hp : r'.partition = r.partition
      · simp only [Worker.setWatermark, at_r hp, PartitionWatermark.start_lastSeen,
          PartitionWatermark.start_inFlight, Finset.mem_insert] at hs ⊢
        rcases lt_trichotomy r'.offset r.offset with hlt | heq | hgt
        · rcases h.batch [] r rest hb r' hr' hp hb' hlt with (done | old) | none
          · exact .inl done
          · exact (h.covered r' hr' hb' old).imp_right fun hm => .inr (hp ▸ hm)
          · cases none
        · exact .inr (.inl (by omega))
        · have old : (r'.offset : Int) ≤ (w.watermarks r'.partition).lastSeen := by rw [hp]; omega
          exact (h.covered r' hr' hb' old).imp_right fun hm => .inr (hp ▸ hm)
      · simp only [Worker.setWatermark, Function.update_of_ne hp] at hs ⊢
        exact h.covered r' hr' hb' hs
    batch_log := fun r' hr' => h.batch_log r' (by simp only at hr'; simp [hb, hr'])
    batch := fun pre r₀ post he r' hr' hp hb' hlt => by
      have he : rest = pre ++ r₀ :: post := he
      rcases h.batch (r :: pre) r₀ post (by rw [hb, he, List.cons_append]) r' hr' hp hb' hlt with hs | hm
      · exact .inl (seen r' (.inl hs))
      · exact (List.mem_cons.1 hm).imp_left fun hm => seen r' (.inr hm)
    position := fun q u hu => by
      obtain ⟨within, held⟩ := h.position q u hu
      refine ⟨within, fun r' hr' hp hb' hlt => ?_⟩
      rcases held r' hr' hp hb' hlt with hs | hm
      · exact .inl (seen r' (.inl hs))
      · rw [hb] at hm
        exact (List.mem_cons.1 hm).imp_left fun hm => seen r' (.inr hm) }

/-- Marking the offset of a processed record done. -/
theorem WorkerInv.done {w : Worker V} {r : Record V} (h : WorkerInv base log processed w)
    (hr : r ∈ log)
    (offsets : ∀ r ∈ log, ∀ r' ∈ log, r.partition = r'.partition → r.offset = r'.offset → r = r') :
    WorkerInv base log (processed ++ [r]) (w.setWatermark r.partition
      ((w.watermarks r.partition).done r.offset).1) := by
  have lastSeen : ∀ p, (Function.update w.watermarks r.partition
      ((w.watermarks r.partition).done r.offset).1 p).lastSeen = (w.watermarks p).lastSeen := by
    intro p
    by_cases hp : p = r.partition
    · subst hp; simp
    · rw [Function.update_of_ne hp]
  have seen : ∀ r', Seen processed w r' → Seen (processed ++ [r]) (w.setWatermark r.partition
      ((w.watermarks r.partition).done r.offset).1) r' := fun r' hs =>
    hs.imp (List.mem_append_left _) fun hs => by simpa [Worker.setWatermark, lastSeen] using hs
  exact {
    lastSeen := fun p => by simpa [Worker.setWatermark, lastSeen] using h.lastSeen p
    covered := fun r' hr' hb hs => by
      simp only [Worker.setWatermark, lastSeen] at hs ⊢
      rcases h.covered r' hr' hb hs with done | flight
      · exact .inl (List.mem_append_left _ done)
      · by_cases hp : r'.partition = r.partition
        · by_cases ho : r'.offset = r.offset
          · rw [offsets r' hr' r hr hp ho]
            exact .inl (by simp)
          · right
            rw [hp] at flight ⊢
            rw [Function.update_self, PartitionWatermark.done_inFlight]
            exact Finset.mem_erase.2 ⟨by omega, flight⟩
        · right
          rwa [Function.update_of_ne hp]
    batch_log := h.batch_log
    batch := fun pre r₀ post he r' hr' hp hb hlt =>
      (h.batch pre r₀ post he r' hr' hp hb hlt).imp_left (seen r')
    position := fun q u hu =>
      ⟨(h.position q u hu).1, fun r' hr' hp hb hlt =>
        ((h.position q u hu).2 r' hr' hp hb hlt).imp_left (seen r')⟩ }

/-- The position `done` asks to commit has only processed records below it. -/
theorem WorkerInv.acked {w : Worker V} {p : Nat} {o c : Int}
    (h : WorkerInv base log processed (w.setWatermark p ((w.watermarks p).done o).1))
    (hc : ((w.watermarks p).done o).2 = some c) :
    Acked base log processed p (c + 1).toNat := by
  have hm : (w.setWatermark p ((w.watermarks p).done o).1).watermarks p =
      ((w.watermarks p).done o).1 := by simp [Worker.setWatermark]
  obtain ⟨low, high⟩ := ((w.watermarks p).discard o).candidate_spec
  rw [← PartitionWatermark.done_commit hc] at low high
  have high : c ≤ (w.watermarks p).lastSeen := high
  have low : ∀ x ∈ ((w.watermarks p).done o).1.inFlight, c < x := fun x hx =>
    low x (by rwa [PartitionWatermark.done_inFlight] at hx)
  constructor
  · rcases h.lastSeen p with none | ⟨r, hr, hp, ho⟩
    · rw [hm, PartitionWatermark.done_lastSeen] at none
      left; omega
    · rw [hm, PartitionWatermark.done_lastSeen] at ho
      exact .inr ⟨r, hr, hp, by omega⟩
  · intro r hr hp hb hlt
    subst hp
    have hs : (r.offset : Int) ≤
        ((w.setWatermark r.partition ((w.watermarks r.partition).done o).1).watermarks
          r.partition).lastSeen := by
      rw [hm, PartitionWatermark.done_lastSeen]; omega
    rcases h.covered r hr hb hs with done | flight
    · exact done
    · rw [hm] at flight
      have := low _ flight
      omega

/-! ## The steps of the group -/

variable {concurrency : Nat} {init : V → τ} {g g' : ConsumerGroup V τ}

/-- Replacing one worker keeps what holds of all. -/
theorem forall_workers_set {P : Worker V → Prop} {ws : List (Worker V)} {i : Nat} {w : Worker V}
    (h : ∀ w ∈ ws, P w) (hw : P w) : ∀ w' ∈ ws.set i w, P w' := fun w' hm =>
  (List.mem_or_eq_of_mem_set hm).elim (h w') fun he => he ▸ hw

theorem Inv.initial : Inv base ({ committed := base } : ConsumerGroup V τ) where
  offsets r hr := by cases hr
  workers w hw := by cases hw
  tasks t ht := by cases ht
  commits c hc := by cases hc
  committed p := ⟨.inl (le_refl _), fun r hr => by cases hr⟩

theorem Inv.append (h : Inv base g) {r : Record V} (hs : g.append r = some g') : Inv base g' := by
  simp only [ConsumerGroup.append, Option.ite_none_right_eq_some, Option.some.injEq] at hs
  obtain ⟨behind, rfl⟩ := hs
  exact {
    offsets := fun r₁ h₁ r₂ h₂ hp ho => by
      rcases List.mem_append.1 h₁ with m₁ | m₁ <;> rcases List.mem_append.1 h₂ with m₂ | m₂
      · exact h.offsets r₁ m₁ r₂ m₂ hp ho
      · rw [List.mem_singleton] at m₂; have := behind r₁ m₁ (m₂ ▸ hp); rw [m₂] at ho; omega
      · rw [List.mem_singleton] at m₁; have := behind r₂ m₂ (m₁ ▸ hp.symm); rw [m₁] at ho; omega
      · rw [List.mem_singleton] at m₁ m₂; rw [m₁, m₂]
    workers := fun w hw => (h.workers w hw).append behind
    tasks := fun t ht => List.mem_append_left _ (h.tasks t ht)
    commits := fun c hc => (h.commits c hc).append behind
    committed := fun p => (h.committed p).append behind }

theorem Inv.finish (h : Inv base g) {i : Nat} {o : Outcome} (hs : g.finish i o = some g') :
    Inv base g' := by
  simp only [ConsumerGroup.finish, Option.bind_eq_bind, Option.bind_eq_some_iff] at hs
  obtain ⟨t, ht, w, hw, hs⟩ := hs
  have ht := h.tasks t (List.mem_of_getElem? ht)
  have hw := (h.workers w (List.mem_of_getElem? hw)).release
  have tasks : ∀ t ∈ g.tasks.eraseIdx i, t.record ∈ g.log := fun t hm =>
    h.tasks t (List.mem_of_mem_eraseIdx hm)
  split at hs
  · cases hs
    have hw := hw.done ht h.offsets
    exact {
      offsets := h.offsets
      workers := forall_workers_set (fun w hm => (h.workers w hm).mono) hw
      tasks := tasks
      commits := fun c hc => by
        rcases List.mem_append.1 hc with hc | hc
        · exact (h.commits c hc).mono
        · obtain ⟨offset, ho, rfl⟩ := Option.map_eq_some_iff.1 (Option.mem_toList.1 hc)
          exact hw.acked ho
      committed := fun p => (h.committed p).mono }
  · split at hs <;> cases hs
    · exact { h with
        workers := forall_workers_set h.workers ⟨hw.1, hw.2, hw.3, hw.4, hw.5⟩
        tasks := tasks }
    · exact { h with
        workers := forall_workers_set h.workers hw
        tasks := tasks }

variable [DecidableEq V]

theorem Inv.loopStep (h : Inv base g) {a : LoopAction V}
    (hs : g.loopStep concurrency init a = some g') : Inv base g' := by
  cases a with
  | spawn =>
    cases hs
    exact { h with
      workers := fun w hw => by
        rcases List.mem_append.1 hw with hw | hw
        · exact h.workers w hw
        · rw [List.mem_singleton.1 hw]; exact .fresh }
  | assign w p =>
    simp only [ConsumerGroup.loopStep, assign, Option.bind_eq_bind, Option.bind_eq_some_iff,
      Option.some.injEq] at hs
    obtain ⟨worker, hw, rfl⟩ := hs
    exact { h with
      workers := forall_workers_set h.workers
        ((h.workers worker (List.mem_of_getElem? hw)).seek (h.committed p)) }
  | revoke w p =>
    simp only [ConsumerGroup.loopStep, revoke, Option.bind_eq_bind, Option.bind_eq_some_iff,
      Option.some.injEq] at hs
    obtain ⟨worker, hw, rfl⟩ := hs
    exact { h with
      workers := forall_workers_set h.workers ((h.workers worker (List.mem_of_getElem? hw)).drop p) }
  | getmany w records =>
    simp only [ConsumerGroup.loopStep, getmany, Option.bind_eq_bind, Option.bind_eq_some_iff,
      Option.ite_none_right_eq_some, Option.some.injEq] at hs
    obtain ⟨worker, hw, -, worker', hf, rfl⟩ := hs
    exact { h with
      workers := forall_workers_set h.workers
        ((h.workers worker (List.mem_of_getElem? hw)).fetchAll h.offsets hf) }
  | start w =>
    simp only [ConsumerGroup.loopStep, ConsumerGroup.start, Option.bind_eq_bind,
      Option.bind_eq_some_iff] at hs
    obtain ⟨worker, hw, hs⟩ := hs
    have hw := h.workers worker (List.mem_of_getElem? hw)
    split at hs
    · cases hs
    rename_i r rest hb
    simp only [Option.ite_none_right_eq_some, Option.some.injEq] at hs
    obtain ⟨-, rfl⟩ := hs
    exact { h with
      workers := forall_workers_set h.workers (hw.acquire.start hb)
      tasks := fun t ht => by
        rcases List.mem_append.1 ht with ht | ht
        · exact h.tasks t ht
        · rw [List.mem_singleton.1 ht]; exact hw.batch_log r (by simp [hb]) }
  | commitApply i =>
    simp only [ConsumerGroup.loopStep, commitApply, Option.bind_eq_bind, Option.bind_eq_some_iff,
      Option.some.injEq] at hs
    obtain ⟨c, hc, rfl⟩ := hs
    exact { h with
      commits := fun c hc => h.commits c (List.mem_of_mem_eraseIdx hc)
      committed := fun p => by
        by_cases hp : p = c.1
        · subst hp
          simpa using h.commits c (List.mem_of_getElem? hc)
        · simpa [Function.update_of_ne hp] using h.committed p }
  | commitDrop i =>
    simp only [ConsumerGroup.loopStep, commitDrop, Option.ite_none_right_eq_some,
      Option.some.injEq] at hs
    obtain ⟨-, rfl⟩ := hs
    exact { h with commits := fun c hc => h.commits c (List.mem_of_mem_eraseIdx hc) }
  | crash w =>
    simp only [ConsumerGroup.loopStep, crash, Option.ite_none_right_eq_some,
      Option.some.injEq] at hs
    obtain ⟨-, rfl⟩ := hs
    exact { h with
      workers := forall_workers_set h.workers .fresh
      tasks := fun t ht => h.tasks t (List.mem_filter.1 ht).1 }

theorem Inv.step (h : Inv base g) {a : Action V τ} (hs : g.step concurrency init a = some g') :
    Inv base g' := by
  cases a with
  | loop a => exact h.loopStep hs
  | append r => exact h.append hs
  | advance i d =>
    simp only [ConsumerGroup.step, advance, Option.bind_eq_bind, Option.bind_eq_some_iff,
      Option.some.injEq] at hs
    obtain ⟨t, ht, rfl⟩ := hs
    exact { h with
      tasks := fun t' hm => by
        rcases List.mem_or_eq_of_mem_set hm with hm | rfl
        · exact h.tasks t' hm
        · exact h.tasks t (List.mem_of_getElem? ht) }
  | finish i o => exact h.finish hs

/-! ## Runs -/

/-- In the run `as` from `g₀` some `_process_record` call on the record `r` returned normally or
raised `PoisonPillError`. -/
def EndedIn (concurrency : Nat) (init : V → τ) (g₀ : ConsumerGroup V τ) (as : List (Action V τ))
    (r : Record V) : Prop :=
  ∃ before i o after g t, as = before ++ .finish i o :: after ∧
    Lts.Run (step concurrency init) Lts.Any g₀ before g ∧ g.tasks[i]? = some t ∧ t.record = r ∧
    (o = .returned ∨ o = .poisonPill)

/-- A step adds a record to `processed` only by ending a call on it with such an outcome. -/
theorem step_processed {a : Action V τ} (hs : g.step concurrency init a = some g') {r : Record V}
    (hr : r ∈ g'.processed) : r ∈ g.processed ∨ ∃ i o t, a = .finish i o ∧ g.tasks[i]? = some t ∧
      t.record = r ∧ (o = .returned ∨ o = .poisonPill) := by
  cases a with
  | finish i o =>
    simp only [step, ConsumerGroup.finish, Option.bind_eq_bind, Option.bind_eq_some_iff] at hs
    obtain ⟨t, ht, w, -, hs⟩ := hs
    split at hs
    · rename_i ho
      cases hs
      rcases List.mem_append.1 hr with hr | hr
      · exact .inl hr
      · exact .inr ⟨i, o, t, rfl, ht, (List.mem_singleton.1 hr).symm, by cases o <;> simp_all [Outcome.advance]⟩
    · split at hs <;> cases hs <;> exact .inl hr
  | append r' =>
    simp only [step, ConsumerGroup.append, Option.ite_none_right_eq_some, Option.some.injEq] at hs
    obtain ⟨-, rfl⟩ := hs
    exact .inl hr
  | advance i d =>
    simp only [step, advance, Option.bind_eq_bind, Option.bind_eq_some_iff, Option.some.injEq] at hs
    obtain ⟨t, -, rfl⟩ := hs
    exact .inl hr
  | loop a => rw [(loopStep_log hs).2] at hr; exact .inl hr

/-- Every record counted as processed at the end of a run had such a call in it. -/
theorem ended_of_processed {g₀ : ConsumerGroup V τ} {as : List (Action V τ)} {r : Record V}
    (run : Lts.Run (step concurrency init) Lts.Any g₀ as g) (hr : r ∈ g.processed) :
    r ∈ g₀.processed ∨ EndedIn concurrency init g₀ as r := by
  induction run with
  | nil => exact .inl hr
  | @cons g₀ g₁ g a as _ hs _ ih =>
    rcases ih hr with hr | ⟨before, i, o, after, g, t, rfl, hrun, hx⟩
    · refine (step_processed hs hr).imp_right fun ⟨i, o, t, ha, hx⟩ => ?_
      exact ⟨[], i, o, as, g₀, t, by rw [ha]; rfl, .nil _, hx⟩
    · exact .inr ⟨a :: before, i, o, after, g, t, rfl, .cons trivial hs hrun, hx⟩

/-- **A committed offset never skips an unprocessed record.** In every run of any number of
workers, with any reassignments, completion orders, failures, crashes and commits applied late,
out of order or not at all: a record below its partition's committed position (and not before
the initial one) had a `_process_record` call that returned normally or raised
`PoisonPillError`. -/
theorem committed_never_skips {base : Nat → Nat} {as : List (Action V τ)}
    (run : Lts.Run (step concurrency init) Lts.Any { committed := base } as g) {r : Record V}
    (hr : r ∈ g.log) (first : base r.partition ≤ r.offset)
    (below : r.offset < g.committed r.partition) :
    EndedIn concurrency init { committed := base } as r := by
  have inv : Inv base g := run.invariant (fun _ _ _ h _ hs => h.step hs) .initial
  have done := (inv.committed r.partition).below r hr rfl first below
  exact (ended_of_processed run done).resolve_left fun hm => by cases hm

/-- Two records finish out of order, the later one normally and the earlier one as a poison pill;
the commit that follows covers both. -/
theorem committed_never_skips_two :
    ∃ (as : List (Action Unit Unit)) (g : ConsumerGroup Unit Unit),
      g.committed 0 = 2 ∧ EndedIn 10 id { committed := fun _ => 0 } as ⟨0, 1, ()⟩ := by
  obtain ⟨g, run, h⟩ := Lts.Run.of_check_any (C := fun _ _ => true)
    (s := ({ committed := fun _ => 0 } : ConsumerGroup Unit Unit))
    (p := fun g : ConsumerGroup Unit Unit => g.committed 0 == 2 && decide (⟨0, 1, ()⟩ ∈ g.log))
    (show (Lts.check (step 10 (id : Unit → Unit)) _ _ [.append ⟨0, 0, ()⟩, .append ⟨0, 1, ()⟩, .loop .spawn,
      .loop (.assign 0 0), .loop (.getmany 0 [⟨0, 0, ()⟩, ⟨0, 1, ()⟩]), .loop (.start 0),
      .loop (.start 0), .finish 1 .returned, .finish 0 .poisonPill, .loop (.commitApply 0)]).any _ =
        true by decide)
  simp only [Bool.and_eq_true, beq_iff_eq, decide_eq_true_eq] at h
  exact ⟨_, g, h.1, committed_never_skips run.any h.2 (Nat.zero_le _) (by simp [h.1])⟩

end HookRelay.ConsumerGroup
