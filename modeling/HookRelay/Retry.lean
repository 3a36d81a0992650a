import Mathlib.Data.List.AList
import Mathlib.Data.List.Sort
import HookRelay.Data

/-!
# The retry store in Redis

`RedisRetryScheduler` of `worker/retry.py`: a ZSET from members to due times and a hash from
members to messages, written by three atomic scripts. A member is the string
`{event_id}:{endpoint_id}:{attempt_number}`, here the triple itself; its rendering only breaks
ties between equal due times. A due time is a timestamp that is only compared.

The scripts write both structures or neither, so they always have the same members, which the
type states.
-/

namespace HookRelay

/-- `str(UUID)`: the 32 hexadecimal digits in groups of 8, 4, 4, 4 and 12. -/
def UUID.toString (u : UUID) : String :=
  let digit (i : Nat) : Char := Nat.digitChar ((u.int.toNat >>> (4 * (31 - i))) % 16)
  let group (start length : Nat) : List Char := (List.range length).map fun i => digit (start + i)
  String.ofList (group 0 8 ++ '-' :: group 8 4 ++ '-' :: group 12 4 ++ '-' :: group 16 4 ++
    '-' :: group 20 12)

/-- `_member(event_id, endpoint_id, attempt_number)`. -/
structure Member where
  eventId : UUID
  endpointId : UUID
  attemptNumber : Nat
  deriving DecidableEq

def Member.toString (k : Member) : String :=
  k.eventId.toString ++ ":" ++ k.endpointId.toString ++ ":" ++ Nat.repr k.attemptNumber

/-- `_POLL_BATCH`. -/
def pollBatch : Nat := 100

structure RedisRetryScheduler where
  zset : AList (fun _ : Member => Nat) := ∅
  data : AList (fun _ : Member => Message) := ∅
  agree : zset.keys = data.keys := by rfl

namespace RedisRetryScheduler

/-- The order of `ZRANGEBYSCORE`: by score, then by member. -/
def zle (a b : (_ : Member) × Nat) : Bool :=
  a.2 < b.2 || (a.2 = b.2 && decide (a.1.toString ≤ b.1.toString))

/-- `ZRANGEBYSCORE key -inf now LIMIT 0 batch`. -/
def dueMembers (zset : AList (fun _ : Member => Nat)) (now batch : Nat) : List Member :=
  (((zset.entries.filter (·.2 ≤ now)).insertionSort (zle · ·)).take batch).map (·.1)

/-- `_POLL_SCRIPT`: the payloads of the due members, and the ZSET less the due members that have
no payload. -/
def pollScript (zset : AList (fun _ : Member => Nat)) (data : AList (fun _ : Member => Message))
    (now batch : Nat) : AList (fun _ : Member => Nat) × List Message :=
  (dueMembers zset now batch).foldl (fun (acc : AList (fun _ : Member => Nat) × List Message) k =>
    match data.lookup k with
    | some m => (acc.1, acc.2 ++ [m])
    | none => (acc.1.erase k, acc.2)) (zset, [])

/-- `schedule`, with the due time already computed. -/
def schedule (r : RedisRetryScheduler) (k : Member) (m : Message) (retryAfter : Nat) :
    RedisRetryScheduler where
  zset := r.zset.insert k retryAfter
  data := r.data.insert k m
  agree := by rw [AList.keys_insert, AList.keys_insert, r.agree]

/-- `cancel`: `ZREM` and `HDEL` in one transaction. -/
def cancel (r : RedisRetryScheduler) (k : Member) : RedisRetryScheduler where
  zset := r.zset.erase k
  data := r.data.erase k
  agree := by rw [AList.keys_erase, AList.keys_erase, r.agree]

/-- `poll_due(now)`. The script changes nothing (`pollScript_zset`). -/
def pollDue (r : RedisRetryScheduler) (now : Nat) : List Message :=
  (pollScript r.zset r.data now pollBatch).2

/-- Redis holds a retry entry under the member `k`. -/
def Holds (r : RedisRetryScheduler) (k : Member) : Prop := k ∈ r.data

instance (r : RedisRetryScheduler) (k : Member) : Decidable (r.Holds k) :=
  inferInstanceAs (Decidable (k ∈ r.data))

theorem mem_zset_iff {r : RedisRetryScheduler} {k : Member} : k ∈ r.zset ↔ r.Holds k := by
  rw [Holds, AList.mem_keys, AList.mem_keys, r.agree]

@[simp] theorem holds_schedule {r : RedisRetryScheduler} {k k' : Member} {m : Message} {t : Nat} :
    (r.schedule k m t).Holds k' ↔ k' = k ∨ r.Holds k' := by
  simp [Holds, schedule]

@[simp] theorem holds_cancel {r : RedisRetryScheduler} {k k' : Member} :
    (r.cancel k).Holds k' ↔ k' ≠ k ∧ r.Holds k' := by
  simp [Holds, cancel]

/-- The message found after `schedule` is the new one under its member and unchanged elsewhere. -/
theorem lookup_schedule {r : RedisRetryScheduler} {k k' : Member} {m m' : Message} {t : Nat}
    (h : (r.schedule k m t).data.lookup k' = some m') :
    (k' = k ∧ m' = m) ∨ r.data.lookup k' = some m' := by
  by_cases hk : k' = k
  · subst hk
    rw [schedule, AList.lookup_insert, Option.some.injEq] at h
    exact .inl ⟨rfl, h.symm⟩
  · rw [schedule, AList.lookup_insert_ne hk] at h
    exact .inr h

theorem lookup_cancel {r : RedisRetryScheduler} {k k' : Member} {m : Message}
    (h : (r.cancel k).data.lookup k' = some m) : r.data.lookup k' = some m := by
  by_cases hk : k' = k
  · subst hk; rw [cancel, AList.lookup_erase] at h; cases h
  · rwa [cancel, AList.lookup_erase_ne hk] at h

theorem mem_dueMembers {zset : AList (fun _ : Member => Nat)} {now batch : Nat} {k : Member}
    (h : k ∈ dueMembers zset now batch) : ∃ t, zset.lookup k = some t ∧ t ≤ now := by
  obtain ⟨x, hx, rfl⟩ := List.mem_map.1 h
  have hx := List.mem_of_mem_take hx
  rw [List.mem_insertionSort, List.mem_filter] at hx
  exact ⟨x.2, AList.mem_lookup_iff.2 hx.1, by simpa using hx.2⟩

/-- The poll script over members that all have a payload: it collects the payloads and removes
nothing. -/
theorem pollScript_fold {data : AList (fun _ : Member => Message)} {members : List Member}
    (held : ∀ k ∈ members, k ∈ data) (zset : AList (fun _ : Member => Nat)) (found : List Message) :
    members.foldl (fun (acc : AList (fun _ : Member => Nat) × List Message) k =>
      match data.lookup k with
      | some m => (acc.1, acc.2 ++ [m])
      | none => (acc.1.erase k, acc.2)) (zset, found) =
    (zset, found ++ members.filterMap data.lookup) := by
  induction members generalizing found with
  | nil => simp
  | cons k rest ih =>
    obtain ⟨m, hm⟩ := Option.isSome_iff_exists.1 (AList.lookup_isSome.2 (held k (by simp)))
    simp only [List.foldl_cons, hm, ih fun k hk => held k (List.mem_cons_of_mem _ hk),
      List.filterMap_cons, List.append_assoc, List.singleton_append]

theorem dueMembers_held (r : RedisRetryScheduler) (now batch : Nat) :
    ∀ k ∈ dueMembers r.zset now batch, k ∈ r.data := fun k hk => by
  obtain ⟨t, ht, _⟩ := mem_dueMembers hk
  exact mem_zset_iff.1 (AList.lookup_isSome.1 (by simp [ht]))

/-- Polling removes no member: the branch for a member without payload is never taken. -/
theorem pollScript_zset (r : RedisRetryScheduler) (now batch : Nat) :
    (pollScript r.zset r.data now batch).1 = r.zset := by
  rw [pollScript, pollScript_fold (dueMembers_held r now batch)]

/-- Every message polled is stored under a member that is due. -/
theorem mem_pollDue {r : RedisRetryScheduler} {now : Nat} {m : Message} (h : m ∈ r.pollDue now) :
    ∃ k, r.data.lookup k = some m := by
  rw [pollDue, pollScript, pollScript_fold (dueMembers_held r now pollBatch),
    List.nil_append, List.mem_filterMap] at h
  exact h.elim fun k hk => ⟨k, hk.2⟩

end RedisRetryScheduler
end HookRelay
