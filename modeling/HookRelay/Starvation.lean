import HookRelay.Lib.Windows
import HookRelay.TopicMessages

/-!
# How long a due retry waits

Ticks of `run_scheduler` one after another, with no call of `schedule` between them. A poll returns the
first hundred entries due. An entry that is skipped stays in Redis, at the front, and takes up its place in
every later poll, while a member without payload is removed when it is met.
-/

namespace HookRelay

open PyJson (Text)

/-- A payload that the scheduler skips: no JSON, or an object whose `event_id` or `endpoint_id` is missing
or no UUID. -/
def Skipped (limit : Nat) (payload : Text) : Prop :=
  match PyJson.loads limit payload with
  | .ok v => readPolled v = .malformed
  | .error e => e = .decode

namespace RetryStore

variable (limit : Nat) {D : Type}

/-- The member is that of a well-formed entry. -/
def HoldsEntry (s : RetryStore D) (member : String) (text : Text) : Prop :=
  ∃ payload k, s.data.lookup member = some payload ∧ WellFormed limit payload k text ∧ k.member = member

/-- The payload of the member, if it has one, is no entry. -/
def stuck (s : RetryStore D) (member : String) : Bool :=
  (s.data.lookup member).any fun payload =>
    match PyJson.loads limit payload with
    | .ok v => (entryKey v).isNone
    | .error _ => true

variable [LinearOrder D]

/-- What is due at `now` are well-formed entries, payloads that the scheduler skips, and members without
payload. -/
def Orderly (s : RetryStore D) (now : D) : Prop :=
  ∀ x ∈ s.dueEntries now, s.data.lookup x.1 = none ∨
    (∃ payload, s.data.lookup x.1 = some payload ∧ Skipped limit payload) ∨
    ∃ text, s.HoldsEntry limit x.1 text

/-- Ticks at the given times. -/
def ticks (s : RetryStore D) : List D → Tick D
  | [] => ⟨s, [], true⟩
  | now :: times =>
    let first := s.tick limit now
    if first.returned then
      let rest := first.store.ticks times
      { rest with effects := first.effects ++ rest.effects }
    else first

/-- How many hundreds `n` entries fill. -/
def hundreds (n : Nat) : Nat := (n + (pollBatch - 1)) / pollBatch

/-- The ticks publish and remove every well-formed entry that was due. -/
def Serves (s : RetryStore D) (now : D) (times : List D) : Prop :=
  ∀ x ∈ s.dueEntries now, ∀ text, s.HoldsEntry limit x.1 text →
    .published text ∈ (s.ticks limit times).effects ∧
      x.1 ∉ (s.ticks limit times).store.zset ∧ x.1 ∉ (s.ticks limit times).store.data

/-- As many ticks as the entries due fill hundreds serve what is due, at whatever times they are made. -/
def Prompt (s : RetryStore D) (now : D) : Prop :=
  ∀ times, times.length = hundreds (s.dueEntries now).length →
    (∀ time ∈ times, now ≤ time ∧ s.Orderly limit time) → s.Serves limit now times

/-- How far the polls get into what was due: each reaches a hundred further entries, less those met before
that are stuck. -/
def polled (s : RetryStore D) (now : D) (n : Nat) : Nat :=
  Windows.reach pollBatch (fun x => s.stuck limit x.1) (s.dueEntries now) n

end RetryStore

/-! ## Entries due -/

section

variable {limit : Nat} {D : Type} {s s' : RetryStore D} {payload text : Text} {member : String}

namespace RetryStore

theorem HoldsEntry.not_stuck (h : s.HoldsEntry limit member text) : s.stuck limit member = false := by
  obtain ⟨payload, k, stored, wellFormed, -⟩ := h
  obtain ⟨v, loads, key, -⟩ := roundEffects_wellFormed wellFormed
  simp [stuck, stored, loads, key]

theorem stuck_of_skipped (stored : s.data.lookup member = some payload) (skipped : Skipped limit payload) :
    s.stuck limit member = true := by
  unfold Skipped at skipped
  rw [stuck, stored, Option.any_some]
  cases loads : PyJson.loads limit payload with
  | error => rfl
  | ok v =>
    rw [loads] at skipped
    simp [entryKey, skipped]

theorem not_stuck_of_orphan (orphan : s.data.lookup member = none) : s.stuck limit member = false := by
  rw [stuck, orphan]
  rfl

variable [LinearOrder D] {now later : D}

/-- Two lists of entries in order with the same elements are one. -/
theorem eq_of_places {xs ys : List ((_ : String) × D)} (hx : (xs.map place).Pairwise (· < ·))
    (hy : (ys.map place).Pairwise (· < ·)) (same : ∀ x, x ∈ xs ↔ x ∈ ys) : xs = ys := by
  have injective : Function.Injective (place : (_ : String) × D → D ×ₗ String) := fun _ _ => place_inj
  refine List.map_injective_iff.2 injective (hx.eq_of_mem_iff hy fun p => ?_)
  simp only [List.mem_map, same]

/-- What is due later comes behind what is due now. -/
theorem dueEntries_append (s : RetryStore D) (le : now ≤ later) :
    s.dueEntries later = s.dueEntries now ++ (s.dueEntries later).filter (now < ·.2) := by
  apply eq_of_places (sorted_dueEntries later)
  · rw [List.map_append, List.pairwise_append]
    refine ⟨sorted_dueEntries now, (sorted_dueEntries later).sublist (List.filter_sublist.map _), ?_⟩
    intro p hp p' hp'
    obtain ⟨x, hx, rfl⟩ := List.mem_map.1 hp
    obtain ⟨y, hy, rfl⟩ := List.mem_map.1 hp'
    have before := (mem_dueEntries.1 hx).2.trans_lt (of_decide_eq_true (List.mem_filter.1 hy).2)
    exact Prod.Lex.toLex_lt_toLex.2 (.inl before)
  · intro x
    simp only [List.mem_append, List.mem_filter, mem_dueEntries, decide_eq_true_eq]
    constructor
    · rintro ⟨stored, due⟩
      by_cases early : x.2 ≤ now
      · exact .inl ⟨stored, early⟩
      · exact .inr ⟨⟨stored, due⟩, not_le.1 early⟩
    · rintro (⟨stored, early⟩ | ⟨due, -⟩)
      · exact ⟨stored, early.trans le⟩
      · exact due

/-- A later poll meets the first hundred of what was due before, and of it no more. -/
theorem mem_batch {x : (_ : String) × D} (le : now ≤ later) (due : x ∈ s.dueEntries now) :
    x.1 ∈ s.batch later ↔ x ∈ (s.dueEntries now).take pollBatch := by
  rw [batch, dueEntries_append s le, List.take_append, List.map_append, List.mem_append]
  constructor
  · rintro (mem | mem)
    · obtain ⟨y, hy, same⟩ := List.mem_map.1 mem
      have stored := (mem_dueEntries.1 (List.mem_of_mem_take hy)).1
      rw [same, (mem_dueEntries.1 due).1] at stored
      have eq : y = x := Sigma.ext same (heq_of_eq (Option.some.inj stored).symm)
      exact eq ▸ hy
    · obtain ⟨y, hy, same⟩ := List.mem_map.1 mem
      obtain ⟨hy, after⟩ := List.mem_filter.1 (List.mem_of_mem_take hy)
      have stored := (mem_dueEntries.1 hy).1
      rw [same, (mem_dueEntries.1 due).1] at stored
      have after := of_decide_eq_true after
      rw [← Option.some.inj stored] at after
      exact absurd (mem_dueEntries.1 due).2 (not_le.2 after)
  · intro mem
    exact .inl (List.mem_map_of_mem mem)

/-! ## One tick -/

/-- A payload that is polled is skipped or well-formed. -/
theorem Orderly.payload_cases (orderly : s.Orderly limit now) (inBatch : member ∈ s.batch now)
    (stored : s.data.lookup member = some payload) :
    Skipped limit payload ∨ ∃ text k, WellFormed limit payload k text ∧ k.member = member := by
  obtain ⟨x, hx, rfl⟩ := List.mem_map.1 inBatch
  obtain orphan | ⟨payload', stored', skipped⟩ | ⟨text, payload', k, stored', wellFormed, own⟩ :=
    orderly x (List.mem_of_mem_take hx)
  · cases orphan.symm.trans stored
  · obtain rfl := Option.some.inj (stored.symm.trans stored')
    exact .inl skipped
  · obtain rfl := Option.some.inj (stored.symm.trans stored')
    exact .inr ⟨text, k, wellFormed, own⟩

theorem Orderly.harmless (orderly : s.Orderly limit now) :
    ∀ payload ∈ s.payloads now, Harmless limit payload := by
  intro payload hp
  obtain ⟨member, inBatch, stored⟩ := List.mem_filterMap.1 hp
  obtain skipped | ⟨text, k, ⟨v, loads, entry, -⟩, -⟩ := orderly.payload_cases inBatch stored
  · unfold Skipped at skipped
    cases loads : PyJson.loads limit payload with
    | ok v =>
      rw [loads] at skipped
      exact (harmless_ok loads).2 (by rw [skipped]; simp)
    | error e =>
      rw [loads] at skipped
      exact (harmless_error loads).2 skipped
  · exact (harmless_ok loads).2 (by rw [entry]; simp)

/-- The keys that a tick cancels are those of the entries in its batch. -/
theorem Orderly.cancelled (orderly : s.Orderly limit now) :
    member ∈ ((messages limit (s.payloads now)).filterMap entryKey).map (·.member) ↔
      member ∈ s.batch now ∧ ∃ text, s.HoldsEntry limit member text := by
  constructor
  · intro mem
    obtain ⟨k, hk, rfl⟩ := List.mem_map.1 mem
    obtain ⟨v, hv, key⟩ := List.mem_filterMap.1 hk
    obtain ⟨payload, hp, loads⟩ := mem_messages.1 hv
    obtain ⟨member, inBatch, stored⟩ := List.mem_filterMap.1 hp
    obtain skipped | ⟨text, k', wellFormed, own⟩ := orderly.payload_cases inBatch stored
    · rw [Skipped, loads] at skipped
      have skipped : readPolled v = .malformed := skipped
      rw [entryKey, skipped] at key
      cases key
    · obtain ⟨v', loads', key', -⟩ := roundEffects_wellFormed wellFormed
      cases loads.symm.trans loads'
      obtain rfl := Option.some.inj (key.symm.trans key')
      rw [own]
      exact ⟨inBatch, text, payload, k, stored, wellFormed, own⟩
  · rintro ⟨inBatch, text, payload, k, stored, wellFormed, rfl⟩
    obtain ⟨v, loads, key, -⟩ := roundEffects_wellFormed wellFormed
    have hp : payload ∈ s.payloads now := List.mem_filterMap.2 ⟨_, inBatch, stored⟩
    exact List.mem_map_of_mem (List.mem_filterMap.2 ⟨v, mem_messages.2 ⟨payload, hp, loads⟩, key⟩)

/-- What a tick removes: everything in its batch that is not stuck. -/
structure Removes (limit : Nat) (s : RetryStore D) (now : D) (t : Tick D) : Prop where
  returned : t.returned = true
  zset : ∀ member, t.store.zset.lookup member =
    if member ∈ s.batch now ∧ s.stuck limit member = false then none else s.zset.lookup member
  data : ∀ member, t.store.data.lookup member =
    if member ∈ s.batch now ∧ s.stuck limit member = false then none else s.data.lookup member
  published : ∀ member ∈ s.batch now, ∀ text, s.HoldsEntry limit member text →
    .published text ∈ t.effects

/-- In the batch, what is not stuck is cancelled or an orphan. -/
theorem Orderly.leaves (orderly : s.Orderly limit now) :
    member ∈ s.batch now ∧ s.stuck limit member = false ↔
      member ∈ ((messages limit (s.payloads now)).filterMap entryKey).map (·.member) ∨
        member ∈ s.batch now ∧ s.data.lookup member = none := by
  constructor
  · rintro ⟨inBatch, loose⟩
    obtain ⟨x, hx, rfl⟩ := List.mem_map.1 inBatch
    obtain orphan | ⟨payload, stored, skipped⟩ | entry := orderly x (List.mem_of_mem_take hx)
    · exact .inr ⟨inBatch, orphan⟩
    · rw [stuck_of_skipped stored skipped] at loose
      cases loose
    · exact .inl (orderly.cancelled.2 ⟨inBatch, entry⟩)
  · rintro (gone | ⟨inBatch, orphan⟩)
    · obtain ⟨inBatch, text, entry⟩ := orderly.cancelled.1 gone
      exact ⟨inBatch, entry.not_stuck⟩
    · exact ⟨inBatch, not_stuck_of_orphan orphan⟩

theorem Orderly.tick (orderly : s.Orderly limit now) : Removes limit s now (s.tick limit now) := by
  have survives := (survives_iff s now).2 orderly.harmless
  have run := tick_eq orderly.harmless
  have cancels : ∀ member, _ := lookup_cancelAll (s.dropOrphans (s.batch now))
    ((messages limit (s.payloads now)).filterMap entryKey)
  constructor
  case returned => exact survives.returned
  case published =>
    intro member inBatch text entry
    obtain ⟨payload, k, stored, wellFormed, -⟩ := entry
    have hp : payload ∈ s.payloads now := List.mem_filterMap.2 ⟨member, inBatch, stored⟩
    exact (survives.republished payload hp k text wellFormed).subset List.mem_cons_self
  case zset =>
    intro member
    rw [run, (cancels member).1, (lookup_dropOrphans s (s.batch now) member).2, ← ite_or]
    exact if_congr orderly.leaves.symm rfl rfl
  case data =>
    intro member
    -- an orphan has no payload to lose
    have orphan : (if member ∈ s.batch now ∧ s.data.lookup member = none then none
        else s.data.lookup member) = s.data.lookup member := by
      split
      · rename_i orphan
        exact orphan.2.symm
      · rfl
    rw [run, (cancels member).2, (lookup_dropOrphans s (s.batch now) member).1, if_congr orderly.leaves rfl rfl,
      ite_or, orphan]

/-! ## Ticks -/

namespace Removes

variable {t : Tick D} {x : (_ : String) × D}

/-- A member that is still in the ZSET has what it had. -/
theorem kept (h : Removes limit s later t) (held : member ∈ t.store.zset) :
    ¬ (member ∈ s.batch later ∧ s.stuck limit member = false) ∧
      t.store.zset.lookup member = s.zset.lookup member ∧
      t.store.data.lookup member = s.data.lookup member := by
  have zset := h.zset member
  have data := h.data member
  by_cases gone : member ∈ s.batch later ∧ s.stuck limit member = false
  · rw [if_pos gone] at zset
    have held := AList.lookup_isSome.2 held
    rw [zset] at held
    cases held
  · rw [if_neg gone] at zset data
    exact ⟨gone, zset, data⟩

theorem lookup_none (h : Removes limit s later t) (zset : s.zset.lookup member = none)
    (data : s.data.lookup member = none) :
    t.store.zset.lookup member = none ∧ t.store.data.lookup member = none := by
  rw [h.zset, h.data, zset, data]
  exact ⟨ite_self none, ite_self none⟩

theorem mem_dueEntries (h : Removes limit s later t) : x ∈ t.store.dueEntries now ↔
    x ∈ s.dueEntries now ∧ ¬ (x.1 ∈ s.batch later ∧ s.stuck limit x.1 = false) := by
  rw [RetryStore.mem_dueEntries, RetryStore.mem_dueEntries]
  constructor
  · rintro ⟨stored, due⟩
    obtain ⟨stays, same, -⟩ := h.kept (AList.lookup_isSome.1 (by rw [stored]; rfl))
    exact ⟨⟨same ▸ stored, due⟩, stays⟩
  · rintro ⟨⟨stored, due⟩, stays⟩
    rw [h.zset, if_neg stays]
    exact ⟨stored, due⟩

theorem lookup_data (h : Removes limit s later t) (due : x ∈ t.store.dueEntries now) :
    t.store.data.lookup x.1 = s.data.lookup x.1 := by
  have stored := (RetryStore.mem_dueEntries.1 due).1
  exact (h.kept (AList.lookup_isSome.1 (by rw [stored]; rfl))).2.2

theorem stuck_eq (h : Removes limit s later t) (due : x ∈ t.store.dueEntries now) :
    t.store.stuck limit x.1 = s.stuck limit x.1 := by
  rw [stuck, stuck, h.lookup_data due]

theorem holdsEntry_iff (h : Removes limit s later t) (due : x ∈ t.store.dueEntries now) :
    t.store.HoldsEntry limit x.1 text ↔ s.HoldsEntry limit x.1 text := by
  rw [HoldsEntry, HoldsEntry, h.lookup_data due]

theorem orderly (h : Removes limit s later t) {time : D} (before : s.Orderly limit time) :
    t.store.Orderly limit time := by
  intro x due
  simp only [h.lookup_data due, h.holdsEntry_iff due]
  exact before x (h.mem_dueEntries.1 due).1

/-- The tick serves one window of what was due. -/
theorem dueEntries_eq (h : Removes limit s later t) (le : now ≤ later) :
    t.store.dueEntries now = Windows.serve pollBatch (fun x => s.stuck limit x.1) (s.dueEntries now) := by
  have sorted := sorted_dueEntries (s := s) now
  have nodup : (s.dueEntries now).Nodup := List.Nodup.of_map place (sorted.imp fun lt => lt.ne)
  refine eq_of_places (sorted_dueEntries now) (sorted.sublist (Windows.serve_sublist.map _)) fun x => ?_
  rw [h.mem_dueEntries, Windows.mem_serve nodup]
  refine and_congr_right fun due => ?_
  rw [mem_batch le due, not_and, Bool.not_eq_false]

end Removes

theorem ticks_cons {times : List D} (h : (s.tick limit later).returned = true) :
    s.ticks limit (later :: times) =
      { (s.tick limit later).store.ticks limit times with
        effects := (s.tick limit later).effects ++ ((s.tick limit later).store.ticks limit times).effects } := by
  rw [ticks, if_pos h]

/-- The ticks serve a window each. -/
theorem dueEntries_ticks {times : List D} (late : ∀ time ∈ times, now ≤ time ∧ s.Orderly limit time) :
    (s.ticks limit times).store.dueEntries now =
      (Windows.serve pollBatch fun x => s.stuck limit x.1)^[times.length] (s.dueEntries now) := by
  induction times generalizing s with
  | nil => rfl
  | cons later times ih =>
    obtain ⟨le, orderly⟩ := late later List.mem_cons_self
    have removes := orderly.tick
    have rest := ih fun time ht =>
      have after := late time (List.mem_cons_of_mem _ ht)
      ⟨after.1, removes.orderly after.2⟩
    rw [ticks_cons removes.returned, rest, Windows.iterate_congr fun x hx => removes.stuck_eq hx,
      removes.dueEntries_eq le, List.length_cons, Function.iterate_succ_apply]

/-- What is gone from Redis stays so. -/
theorem lookup_ticks_none {times : List D} (late : ∀ time ∈ times, s.Orderly limit time)
    (zset : s.zset.lookup member = none) (data : s.data.lookup member = none) :
    (s.ticks limit times).store.zset.lookup member = none ∧
      (s.ticks limit times).store.data.lookup member = none := by
  induction times generalizing s with
  | nil => exact ⟨zset, data⟩
  | cons later times ih =>
    have removes := (late later List.mem_cons_self).tick
    obtain ⟨zset, data⟩ := removes.lookup_none zset data
    rw [ticks_cons removes.returned]
    exact ih (fun time ht => removes.orderly (late time (List.mem_cons_of_mem _ ht))) zset data

/-- An entry that is no longer due has been published and removed. -/
theorem served_ticks {times : List D} (late : ∀ time ∈ times, now ≤ time ∧ s.Orderly limit time)
    {x : (_ : String) × D} (due : x ∈ s.dueEntries now) (entry : s.HoldsEntry limit x.1 text)
    (gone : x ∉ (s.ticks limit times).store.dueEntries now) :
    .published text ∈ (s.ticks limit times).effects ∧
      x.1 ∉ (s.ticks limit times).store.zset ∧ x.1 ∉ (s.ticks limit times).store.data := by
  induction times generalizing s with
  | nil => exact absurd due gone
  | cons later times ih =>
    have orderly := fun time ht => (late time ht).2
    have removes := (orderly later List.mem_cons_self).tick
    have after := fun time ht => removes.orderly (orderly time (List.mem_cons_of_mem _ ht))
    rw [ticks_cons removes.returned] at gone ⊢
    by_cases inBatch : x.1 ∈ s.batch later
    · have zset := removes.zset x.1
      have data := removes.data x.1
      rw [if_pos ⟨inBatch, entry.not_stuck⟩] at zset data
      obtain ⟨zset, data⟩ := lookup_ticks_none after zset data
      refine ⟨List.mem_append_left _ (removes.published x.1 inBatch text entry), ?_, ?_⟩
      · exact fun held => AList.lookup_eq_none.1 zset held
      · exact fun held => AList.lookup_eq_none.1 data held
    · have still := removes.mem_dueEntries.2 ⟨due, fun leaves => inBatch leaves.1⟩
      obtain ⟨published, removed⟩ := ih
        (fun time ht => ⟨(late time (List.mem_cons_of_mem _ ht)).1, after time ht⟩)
        still ((removes.holdsEntry_iff still).2 entry) gone
      exact ⟨List.mem_append_right _ published, removed⟩

theorem mem_windows {x : (_ : String) × D} {t : Nat} (loose : s.stuck limit x.1 = false) :
    x ∈ (Windows.serve pollBatch fun x => s.stuck limit x.1)^[t] (s.dueEntries now) ↔
      x ∈ (s.dueEntries now).drop (s.polled limit now t) :=
  Windows.mem_iterate_serve loose

/-- Behind a hundred payloads that are no entries, no tick gets anywhere. -/
theorem starved_ticks {times : List D} (late : ∀ time ∈ times, now ≤ time ∧ s.Orderly limit time)
    {x : (_ : String) × D} (crowded : ∀ y ∈ (s.dueEntries now).take pollBatch, s.stuck limit y.1 = true)
    (behind : x ∈ (s.dueEntries now).drop pollBatch) (loose : s.stuck limit x.1 = false) :
    x ∈ (s.ticks limit times).store.dueEntries now := by
  have long : pollBatch ≤ (s.dueEntries now).length := by
    by_contra short
    rw [List.drop_of_length_le (by omega)] at behind
    cases behind
  rw [dueEntries_ticks late, mem_windows loose]
  exact (List.drop_sublist_drop_left _ (Windows.reach_le crowded long _)).subset behind

theorem late_replicate (orderly : s.Orderly limit now) {n : Nat} :
    ∀ time ∈ List.replicate n now, now ≤ time ∧ s.Orderly limit time := by
  intro time ht
  rw [List.eq_of_mem_replicate ht]
  exact ⟨le_rfl, orderly⟩

theorem Prompt.gone (prompt : s.Prompt limit now) (orderly : s.Orderly limit now) {x : (_ : String) × D}
    (due : x ∈ s.dueEntries now) (entry : s.HoldsEntry limit x.1 text) :
    x ∉ (s.ticks limit (List.replicate (hundreds (s.dueEntries now).length) now)).store.dueEntries now := by
  intro still
  obtain ⟨-, gone, -⟩ := prompt _ List.length_replicate (late_replicate orderly) x due text entry
  have stored := (mem_dueEntries.1 still).1
  exact gone (AList.lookup_isSome.1 (by rw [stored]; rfl))

/-- The ticks serve what is due in time if and only if their windows, narrowed by the payloads in them that
are no entries, reach past the last well-formed entry. -/
theorem prompt_iff (orderly : s.Orderly limit now) : s.Prompt limit now ↔
    ∀ x ∈ (s.dueEntries now).drop (s.polled limit now (hundreds (s.dueEntries now).length)),
      ∀ text, ¬ s.HoldsEntry limit x.1 text := by
  constructor
  · intro prompt x behind text entry
    have gone := prompt.gone orderly (List.mem_of_mem_drop behind) entry
    rw [dueEntries_ticks (late_replicate orderly), List.length_replicate] at gone
    exact gone ((mem_windows entry.not_stuck).2 behind)
  · intro reached times count late x due text entry
    refine served_ticks late due entry fun still => ?_
    rw [dueEntries_ticks late, mem_windows entry.not_stuck, count] at still
    exact reached x still text entry

end RetryStore
end

section

/-- The payload of a first retry. -/
def waitingPayload : Text := (PyJson.dumps 1000 (Message.retry ⟨1⟩ ⟨2⟩ 1).value).getD []

def waitingKey : RetryKey := ⟨⟨1⟩, ⟨2⟩, 1⟩

theorem waiting_wellFormed : WellFormed 1000 waitingPayload waitingKey waitingPayload := by
  obtain ⟨text, writes⟩ := (Message.retry ⟨1⟩ ⟨2⟩ 1).writes 999 (by decide)
  have same : waitingPayload = text := by rw [waitingPayload, writes, Option.getD_some]
  rw [same]
  exact ⟨_, PyJson.loads_dumps (Message.plain _) writes, Message.readPolled_value rfl, writes⟩

/-- A member of no entry. -/
def strayMember (i : Nat) : String := String.ofList (List.replicate (100 + i) 'x')

/-- The entry, due at 100, and `n` empty payloads that are due before. -/
def crowdedStore : Nat → RetryStore Nat
  | 0 => RetryStore.empty.scheduleScript waitingKey.member waitingPayload 100
  | n + 1 => (crowdedStore n).scheduleScript (strayMember n) [] n

theorem length_strayMember (i : Nat) : (strayMember i).toList.length = 100 + i := by
  rw [strayMember, String.toList_ofList, List.length_replicate]

theorem strayMember_ne (i : Nat) : strayMember i ≠ waitingKey.member := by
  intro same
  have short : waitingKey.member.toList.length = 75 := by decide +kernel
  have length := length_strayMember i
  rw [same] at length
  omega

theorem strayMember_inj {i j : Nat} : strayMember i = strayMember j ↔ i = j := by
  constructor
  · intro same
    have lengths := length_strayMember i
    rw [same, length_strayMember] at lengths
    omega
  · rintro rfl
    rfl

/-- What the store holds, member by member. -/
theorem lookup_crowdedStore (n : Nat) :
    (crowdedStore n).zset.lookup waitingKey.member = some 100 ∧
    (crowdedStore n).data.lookup waitingKey.member = some waitingPayload ∧
    (∀ i < n, (crowdedStore n).zset.lookup (strayMember i) = some i ∧
      (crowdedStore n).data.lookup (strayMember i) = some []) ∧
    ∀ member ∈ (crowdedStore n).zset, member = waitingKey.member ∨ ∃ i < n, member = strayMember i := by
  induction n with
  | zero =>
    refine ⟨AList.lookup_insert _, AList.lookup_insert _, fun i none => absurd none (Nat.not_lt_zero i), ?_⟩
    intro member held
    exact .inl ((AList.mem_insert _).1 held |>.resolve_right (AList.notMem_empty _))
  | succ n ih =>
    obtain ⟨zset, data, strays, members⟩ := ih
    refine ⟨?_, ?_, fun i hi => ?_, fun member held => ?_⟩
    · exact (AList.lookup_insert_ne (strayMember_ne n).symm).trans zset
    · exact (AList.lookup_insert_ne (strayMember_ne n).symm).trans data
    · by_cases last : i = n
      · subst last
        exact ⟨AList.lookup_insert _, AList.lookup_insert _⟩
      · have other : strayMember i ≠ strayMember n := mt strayMember_inj.1 last
        obtain ⟨zset, data⟩ := strays i (by omega)
        exact ⟨(AList.lookup_insert_ne other).trans zset, (AList.lookup_insert_ne other).trans data⟩
    · obtain rfl | held := (AList.mem_insert _).1 held
      · exact .inr ⟨n, Nat.lt_succ_self n, rfl⟩
      · obtain own | ⟨i, hi, stray⟩ := members member held
        · exact .inl own
        · exact .inr ⟨i, Nat.lt_succ_of_lt hi, stray⟩

/-- The strays are in front. -/
theorem dueEntries_crowdedStore {n : Nat} (le : n ≤ 100) : (crowdedStore n).dueEntries 100 =
    (List.range n).map (fun i => ⟨strayMember i, i⟩) ++ [⟨waitingKey.member, 100⟩] := by
  obtain ⟨zset, -, strays, members⟩ := lookup_crowdedStore n
  apply RetryStore.eq_of_places (RetryStore.sorted_dueEntries 100)
  · rw [List.map_append, List.map_map, List.pairwise_append]
    refine ⟨?_, List.pairwise_singleton _ _, ?_⟩
    · rw [List.pairwise_map]
      exact List.pairwise_lt_range.imp fun lt => Prod.Lex.toLex_lt_toLex.2 (.inl lt)
    · intro p hp p' hp'
      obtain ⟨i, hi, rfl⟩ := List.mem_map.1 hp
      obtain rfl := List.mem_singleton.1 hp'
      exact Prod.Lex.toLex_lt_toLex.2 (.inl ((List.mem_range.1 hi).trans_le le))
  · intro x
    rw [RetryStore.mem_dueEntries, List.mem_append, List.mem_singleton, List.mem_map]
    constructor
    · rintro ⟨stored, -⟩
      obtain ⟨member, score⟩ := x
      obtain own | ⟨i, hi, stray⟩ := members member (AList.lookup_isSome.1 (by rw [stored]; rfl))
      · subst own
        cases stored.symm.trans zset
        exact .inr rfl
      · subst stray
        obtain rfl : score = i := Option.some.inj (stored.symm.trans (strays i hi).1)
        exact .inl ⟨_, List.mem_range.2 hi, rfl⟩
    · rintro (⟨i, hi, rfl⟩ | rfl)
      · have hi := List.mem_range.1 hi
        exact ⟨(strays i hi).1, (hi.trans_le le).le⟩
      · exact ⟨zset, le_rfl⟩

theorem orderly_crowdedStore {n : Nat} (le : n ≤ 100) : (crowdedStore n).Orderly 1000 100 := by
  obtain ⟨-, data, strays, -⟩ := lookup_crowdedStore n
  intro x due
  rw [dueEntries_crowdedStore le, List.mem_append, List.mem_singleton, List.mem_map] at due
  obtain ⟨i, hi, rfl⟩ | rfl := due
  · exact .inr (.inl ⟨[], (strays i (List.mem_range.1 hi)).2, rfl⟩)
  · exact .inr (.inr ⟨_, _, _, data, waiting_wellFormed, rfl⟩)

/-- Fewer than a hundred strays leave room for the entry. -/
theorem prompt_crowdedStore : (crowdedStore 99).Prompt 1000 100 := by
  have due := dueEntries_crowdedStore (n := 99) (by decide)
  have length : ((crowdedStore 99).dueEntries 100).length = 100 := by
    rw [due, List.length_append, List.length_map, List.length_range, List.length_singleton]
  have window : (crowdedStore 99).polled 1000 100 (RetryStore.hundreds 100) = 100 := by
    simp [RetryStore.polled, RetryStore.hundreds, Windows.reach, pollBatch]
  rw [RetryStore.prompt_iff (orderly_crowdedStore (by decide)), length, window,
    List.drop_of_length_le length.le]
  exact fun x none => absurd none List.not_mem_nil

/-- A hundred strays, and the entry is never reached. -/
theorem not_prompt_crowdedStore : ¬ (crowdedStore 100).Prompt 1000 100 := by
  have due := dueEntries_crowdedStore (le_refl 100)
  have orderly := orderly_crowdedStore (le_refl 100)
  obtain ⟨-, data, strays, -⟩ := lookup_crowdedStore 100
  have entry : (crowdedStore 100).HoldsEntry 1000 waitingKey.member waitingPayload :=
    ⟨_, _, data, waiting_wellFormed, rfl⟩
  have length : ((List.range 100).map fun i => (⟨strayMember i, i⟩ : (_ : String) × Nat)).length = pollBatch := by
    rw [List.length_map, List.length_range, pollBatch]
  have crowded : ∀ y ∈ ((crowdedStore 100).dueEntries 100).take pollBatch,
      (crowdedStore 100).stuck 1000 y.1 = true := by
    intro y hy
    rw [due, List.take_left' length] at hy
    obtain ⟨i, hi, rfl⟩ := List.mem_map.1 hy
    exact RetryStore.stuck_of_skipped (strays i (List.mem_range.1 hi)).2 rfl
  have behind : ⟨waitingKey.member, 100⟩ ∈ ((crowdedStore 100).dueEntries 100).drop pollBatch := by
    rw [due, List.drop_left' length]
    exact List.mem_cons_self
  intro prompt
  have gone := prompt.gone orderly (List.mem_of_mem_drop behind) entry
  exact gone (RetryStore.starved_ticks (RetryStore.late_replicate orderly) crowded behind entry.not_stuck)

end

end HookRelay
