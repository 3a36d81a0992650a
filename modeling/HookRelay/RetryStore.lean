import Mathlib.Data.Set.Card
import Mathlib.Data.Prod.Lex
import Mathlib.Data.String.Basic
import HookRelay.Retry
import HookRelay.Lib.PyJsonValues

/-!
# The retry store, string by string

`RedisRetryScheduler` of `worker/retry.py` over what Redis holds: a ZSET from member strings to scores
and a hash from member strings to JSON texts. `schedule` computes the backoff, the member and the text
before its script runs, and each of these may raise; the scripts are atomic, so the calls of the clients
happen one after another.

Over it stands what the scheduler is for: a finite map from the triples of its callers to timed messages.
The clock is not modelled: a due time is whatever `schedule` computed, and due times are only compared.
-/

namespace HookRelay

/-! ## Timed messages -/

/-- The arguments of `schedule` and `cancel` that name an entry. -/
structure RetryKey where
  eventId : UUID
  endpointId : UUID
  attemptNumber : Int
  deriving DecidableEq

/-- `_member(event_id, endpoint_id, attempt_number)`. -/
def RetryKey.member (k : RetryKey) : String :=
  k.eventId.toString ++ ":" ++ k.endpointId.toString ++ ":" ++ String.ofList (PyJson.intText k.attemptNumber)

/-- A message: an object that some JSON document denotes. `limit` is the recursion limit. -/
structure JsonMessage (limit : Nat) where
  fields : List PyJson.Field
  denoted : ∃ t, PyJson.loads limit t = .ok (.obj fields)

def JsonMessage.value {limit : Nat} (m : JsonMessage limit) : PyJson.Value := .obj m.fields

structure RetryEntry (limit : Nat) (D : Type) where
  retryAfter : D
  message : JsonMessage limit

/-- A finite map from triples to timed messages. -/
structure RetryMap (limit : Nat) (D : Type) where
  entry : RetryKey → Option (RetryEntry limit D)
  finite : {k | (entry k).isSome}.Finite

/-- The calls of the clients. That of `schedule` has the due time it computes if it does not raise. -/
inductive RetryCall (limit : Nat) (D : Type) where
  | schedule (k : RetryKey) (message : JsonMessage limit) (retryAfter : D)
  | cancel (k : RetryKey)
  | pollDue (now : D)

section

variable {limit : Nat} {D : Type}

namespace RetryMap

def empty : RetryMap limit D := ⟨fun _ => none, by simp⟩

def update (m : RetryMap limit D) (k : RetryKey) (e : Option (RetryEntry limit D)) :
    RetryMap limit D where
  entry := Function.update m.entry k e
  finite := by
    refine (m.finite.insert k).subset fun k' some_ => ?_
    by_cases same : k' = k
    · exact .inl same
    · rw [Set.mem_ofPred_eq, Function.update_of_ne same] at some_
      exact .inr some_

@[simp] theorem entry_update_self (m : RetryMap limit D) (k : RetryKey)
    (e : Option (RetryEntry limit D)) : (m.update k e).entry k = e := by
  simp only [update, Function.update_self]

@[simp] theorem entry_update_of_ne (m : RetryMap limit D) {k k' : RetryKey} (h : k' ≠ k)
    (e : Option (RetryEntry limit D)) : (m.update k e).entry k' = m.entry k' := by
  simp only [update, Function.update_of_ne h]

theorem update_absent {m : RetryMap limit D} {k : RetryKey} (absent : m.entry k = none) :
    m.update k none = m := by
  obtain ⟨entry, finite⟩ := m
  have same : Function.update entry k none = entry := Function.update_eq_self_iff.2 absent.symm
  simp only [update, same]

/-- What a call does to the map. -/
def apply (m : RetryMap limit D) : RetryCall limit D → RetryMap limit D
  | .schedule k message retryAfter => m.update k (some ⟨retryAfter, message⟩)
  | .cancel k => m.update k none
  | .pollDue _ => m

/-- The keys with an entry due by `now`. -/
def due [LE D] (m : RetryMap limit D) (now : D) : Set RetryKey :=
  {k | ∃ e, m.entry k = some e ∧ e.retryAfter ≤ now}

end RetryMap

/-- An entry's place in the order of due times and members. -/
def RetryEntry.place (e : RetryEntry limit D) (k : RetryKey) : D ×ₗ String :=
  toLex (e.retryAfter, k.member)

variable [LinearOrder D]

/-- `messages` is what a poll at `now` owes: the first entries due, up to the batch size, in order. -/
def RetryMap.Polls (m : RetryMap limit D) (now : D) (messages : List PyJson.Value) : Prop :=
  ∃ batch : List (RetryKey × RetryEntry limit D),
    (∀ b ∈ batch, m.entry b.1 = some b.2 ∧ b.2.retryAfter ≤ now) ∧
    (batch.map fun b => b.2.place b.1).Pairwise (· < ·) ∧
    (∀ k e, m.entry k = some e → e.retryAfter ≤ now → (k, e) ∉ batch →
      ∀ b ∈ batch, b.2.place b.1 < e.place k) ∧
    batch.length = min pollBatch (m.due now).ncard ∧
    messages = batch.map fun b => b.2.message.value

/-! ## Redis -/

/-- `hookrelay:retries` and `hookrelay:retry:data`. -/
structure RetryStore (D : Type) where
  zset : AList (fun _ : String => D)
  data : AList (fun _ : String => PyJson.Text)

inductive RetryOutcome where
  | done
  | polled (messages : List PyJson.Value)
  | raised

/-- Whether `1.0 * 2**attempt` is a float: the power is an integer, which is converted, or, below zero,
`2.0**float(attempt)`. -/
def exponentialFits (attempt : Int) : Bool :=
  if 0 ≤ attempt then (Binary64.ofInt (2 ^ attempt.toNat)).isSome else (Binary64.ofInt attempt).isSome

/-- The member, if the attempt number is not too long for `str`. -/
def RetryKey.render (k : RetryKey) : Option String :=
  if (Nat.toDigits 10 k.attemptNumber.natAbs).length ≤ PyJson.maxDigits then some k.member else none

namespace RetryStore

def empty : RetryStore D := ⟨∅, ∅⟩

/-- `_SCHEDULE_SCRIPT`. -/
def scheduleScript (s : RetryStore D) (member : String) (payload : PyJson.Text) (retryAfter : D) :
    RetryStore D where
  data := s.data.insert member payload
  zset := s.zset.insert member retryAfter

/-- `ZREM` and `HDEL` in one transaction. -/
def cancelScript (s : RetryStore D) (member : String) : RetryStore D where
  zset := s.zset.erase member
  data := s.data.erase member

/-- The order of `ZRANGEBYSCORE`: by score, then by member. -/
def place (x : (_ : String) × D) : D ×ₗ String := toLex (x.2, x.1)

/-- The entries due by `now`, in order. -/
def dueEntries (s : RetryStore D) (now : D) : List ((_ : String) × D) :=
  (s.zset.entries.filter (·.2 ≤ now)).insertionSort (place · ≤ place ·)

/-- One round of the loop of `_POLL_SCRIPT`. -/
def pollMember (s : RetryStore D) (found : List PyJson.Text) (member : String) :
    RetryStore D × List PyJson.Text :=
  match s.data.lookup member with
  | some payload => (s, found ++ [payload])
  | none => ({ s with zset := s.zset.erase member }, found)

/-- `_POLL_SCRIPT`. -/
def pollScript (s : RetryStore D) (now : D) (batch : Nat) : RetryStore D × List PyJson.Text :=
  (((s.dueEntries now).take batch).map (·.1)).foldl (fun r member => r.1.pollMember r.2 member) (s, [])

/-- The payloads read: one that is no JSON is skipped, and another exception is raised. -/
def readEntries (limit : Nat) : List PyJson.Text → Option (List PyJson.Value)
  | [] => some []
  | entry :: rest =>
    match PyJson.loads limit entry with
    | .ok v => (readEntries limit rest).map (v :: ·)
    | .error .decode => readEntries limit rest
    | .error .digits | .error .recursion => none

/-- A call, with its script in the middle. -/
def exec (s : RetryStore D) : RetryCall limit D → RetryStore D × RetryOutcome
  | .schedule k message retryAfter =>
    if exponentialFits k.attemptNumber then
      match k.render, PyJson.dumps limit message.value with
      | some member, some payload => (s.scheduleScript member payload retryAfter, .done)
      | _, _ => (s, .raised)
    else (s, .raised)
  | .cancel k =>
    match k.render with
    | some member => (s.cancelScript member, .done)
    | none => (s, .raised)
  | .pollDue now =>
    let (s', entries) := s.pollScript now pollBatch
    match readEntries limit entries with
    | some messages => (s', .polled messages)
    | none => (s', .raised)

/-- Both structures have the same members, and they are the map. -/
structure Represents (s : RetryStore D) (m : RetryMap limit D) : Prop where
  agree : ∀ member, member ∈ s.zset ↔ member ∈ s.data
  keyed : ∀ member ∈ s.zset, ∃ k, k.member = member ∧ (m.entry k).isSome
  stored : ∀ k e, m.entry k = some e → s.zset.lookup k.member = some e.retryAfter ∧
    ∃ payload, s.data.lookup k.member = some payload ∧ PyJson.loads limit payload = .ok e.message.value

end RetryStore

/-- What Redis holds after the calls. -/
def storeAfter (calls : List (RetryCall limit D)) : RetryStore D :=
  calls.foldl (fun s call => (s.exec call).1) .empty

/-- The map after the calls. -/
def mapAfter (calls : List (RetryCall limit D)) : RetryMap limit D := calls.foldl RetryMap.apply .empty

/-- Through all of the calls the store is the map, and every poll returns what the map owes and changes
nothing. -/
structure Refines (calls : List (RetryCall limit D)) : Prop where
  distinct : Function.Injective RetryKey.member
  represents : ∀ before, before <+: calls → (storeAfter before).Represents (mapAfter before)
  polls : ∀ before now, before ++ [.pollDue now] <+: calls → ∃ messages,
    (storeAfter before).exec (.pollDue now : RetryCall limit D) = (storeAfter before, .polled messages) ∧
      (mapAfter before).Polls now messages

end

/-! ## Members -/

/-- The hexadecimal digit of a UUID at place `i`, most significant first. -/
def UUID.digit (u : UUID) (i : Nat) : Char := Nat.digitChar ((u.int.toNat >>> (4 * (31 - i))) % 16)

theorem digitChar_inj : ∀ d < 16, ∀ e < 16, Nat.digitChar d = Nat.digitChar e → d = e := by decide

theorem UUID.toList_toString (u : UUID) : u.toString.toList =
    (List.range 8).map u.digit ++ '-' :: (List.range' 8 4).map u.digit ++
      '-' :: (List.range' 12 4).map u.digit ++ '-' :: (List.range' 16 4).map u.digit ++
      '-' :: (List.range' 20 12).map u.digit := by
  rw [UUID.toString, String.toList_ofList]
  rfl

theorem UUID.length_toString (u : UUID) : u.toString.toList.length = 36 := by
  rw [UUID.toList_toString]
  rfl

/-- The text without its dashes. -/
theorem UUID.filter_toString (u : UUID) :
    u.toString.toList.filter (· ≠ '-') = (List.range 32).map u.digit := by
  have digits : ∀ places : List Nat, (places.map u.digit).filter (· ≠ '-') = places.map u.digit := by
    intro places
    refine List.filter_eq_self.2 fun c hc => ?_
    obtain ⟨i, -, rfl⟩ := List.mem_map.1 hc
    simp [UUID.digit]
  have dash : ∀ l : List Char, ('-' :: l).filter (· ≠ '-') = l.filter (· ≠ '-') := fun _ => rfl
  rw [UUID.toList_toString]
  simp only [List.filter_append, dash, digits]
  rfl

/-- A number below `16 ^ 32` is its digits. -/
theorem UUID.digit_injective {u v : UUID} (same : ∀ i < 32, u.digit i = v.digit i) : u = v := by
  have place : ∀ j < 32, u.int.toNat / 16 ^ j % 16 = v.int.toNat / 16 ^ j % 16 := by
    intro j hj
    have digit := digitChar_inj _ (Nat.mod_lt _ (by decide)) _ (Nat.mod_lt _ (by decide))
      (same (31 - j) (by omega))
    rwa [show 31 - (31 - j) = j by omega, Nat.shiftRight_eq_div_pow, Nat.shiftRight_eq_div_pow,
      Nat.pow_mul] at digit
  have front : ∀ j ≤ 32, u.int.toNat / 16 ^ (32 - j) = v.int.toNat / 16 ^ (32 - j) := by
    intro j
    induction j with
    | zero =>
      have := u.int.isLt
      have := v.int.isLt
      omega
    | succ j ih =>
      intro hj
      have above := ih (by omega)
      have digit := place (32 - (j + 1)) (by omega)
      rw [show 32 - j = 32 - (j + 1) + 1 by omega, Nat.pow_succ, ← Nat.div_div_eq_div_mul,
        ← Nat.div_div_eq_div_mul] at above
      omega
  have whole := front 32 (Nat.le_refl 32)
  obtain ⟨a⟩ := u
  obtain ⟨b⟩ := v
  rw [show 16 ^ (32 - 32) = 1 by rfl, Nat.div_one, Nat.div_one] at whole
  exact congrArg UUID.mk (BitVec.eq_of_toNat_eq whole)

theorem UUID.toString_injective : Function.Injective UUID.toString := by
  intro u v same
  have digits : (List.range 32).map u.digit = (List.range 32).map v.digit := by
    rw [← u.filter_toString, ← v.filter_toString, same]
  exact UUID.digit_injective fun i hi => List.map_inj_left.1 digits i (List.mem_range.2 hi)

theorem toDigits_injective : Function.Injective (Nat.toDigits 10) :=
  Function.LeftInverse.injective fun _ => Nat.ofDigitChars_ten_toDigits

theorem intText_injective : Function.Injective PyJson.intText := by
  have sign : ∀ m, (Nat.toDigits 10 m).head? ≠ some '-' := by
    intro m first
    obtain ⟨c, ds, digits, digit⟩ := PyJson.isDigit_toDigits m
    rw [digits, List.head?_cons, Option.some.injEq] at first
    rw [first] at digit
    cases digit
  intro n n' same
  unfold PyJson.intText at same
  split_ifs at same with neg neg' neg'
  · have size := toDigits_injective (List.tail_eq_of_cons_eq same)
    omega
  · exact absurd (congrArg List.head? same).symm (sign _)
  · exact absurd (congrArg List.head? same) (sign _)
  · have size := toDigits_injective same
    omega

theorem RetryKey.member_injective : Function.Injective RetryKey.member := by
  intro k k' same
  have texts := congrArg String.toList same
  simp only [RetryKey.member, String.toList_append, String.toList_ofList, List.append_assoc] at texts
  have lengths : ∀ u v : UUID, u.toString.toList.length = v.toString.toList.length := fun u v =>
    u.length_toString.trans v.length_toString.symm
  obtain ⟨event, rest⟩ := List.append_inj texts (lengths _ _)
  obtain ⟨endpoint, rest⟩ := List.append_inj (List.append_cancel_left rest) (lengths _ _)
  have attempt := intText_injective (List.append_cancel_left rest)
  have event := UUID.toString_injective (String.toList_inj.1 event)
  have endpoint := UUID.toString_injective (String.toList_inj.1 endpoint)
  cases k
  cases k'
  exact RetryKey.mk.injEq .. ▸ ⟨event, endpoint, attempt⟩

/-! ## The scripts -/

section

variable {limit : Nat} {D : Type} {s : RetryStore D} {m : RetryMap limit D}

namespace RetryStore

theorem represents_empty : (empty : RetryStore D).Represents (RetryMap.empty : RetryMap limit D) where
  agree member := by simp [empty]
  keyed member h := by simp [empty] at h
  stored k e h := by cases h

theorem represents_schedule (h : s.Represents m) (k : RetryKey) (message : JsonMessage limit)
    (retryAfter : D) {payload : PyJson.Text} (loads : PyJson.loads limit payload = .ok message.value) :
    (s.scheduleScript k.member payload retryAfter).Represents (m.update k (some ⟨retryAfter, message⟩)) where
  agree member := by simp [scheduleScript, h.agree member]
  keyed member mem := by
    by_cases same : member = k.member
    · exact ⟨k, same.symm, by simp⟩
    · have old : member ∈ s.zset := by simpa [scheduleScript, same] using mem
      obtain ⟨k', rfl, some_⟩ := h.keyed member old
      have other : k' ≠ k := fun eq => same (eq ▸ rfl)
      refine ⟨k', rfl, ?_⟩
      rwa [RetryMap.entry_update_of_ne m other]
  stored k' e entry := by
    by_cases same : k' = k
    · subst same
      obtain rfl : ⟨retryAfter, message⟩ = e := by simpa using entry
      exact ⟨AList.lookup_insert _, payload, AList.lookup_insert _, loads⟩
    · have other : k'.member ≠ k.member := fun eq => same (RetryKey.member_injective eq)
      rw [RetryMap.entry_update_of_ne m same] at entry
      rw [scheduleScript, AList.lookup_insert_ne other, AList.lookup_insert_ne other]
      exact h.stored k' e entry

theorem represents_cancel (h : s.Represents m) (k : RetryKey) :
    (s.cancelScript k.member).Represents (m.update k none) where
  agree member := by simp [cancelScript, h.agree member]
  keyed member mem := by
    obtain ⟨ne, old⟩ : member ≠ k.member ∧ member ∈ s.zset := by simpa [cancelScript] using mem
    obtain ⟨k', rfl, some_⟩ := h.keyed member old
    have other : k' ≠ k := fun eq => ne (eq ▸ rfl)
    refine ⟨k', rfl, ?_⟩
    rwa [RetryMap.entry_update_of_ne m other]
  stored k' e entry := by
    by_cases same : k' = k
    · subst same
      simp at entry
    · have other : k'.member ≠ k.member := fun eq => same (RetryKey.member_injective eq)
      rw [RetryMap.entry_update_of_ne m same] at entry
      rw [cancelScript, AList.lookup_erase_ne other, AList.lookup_erase_ne other]
      exact h.stored k' e entry

/-! ## Polling -/

variable [LinearOrder D]

/-- The branch for a member without payload is not taken. -/
theorem pollScript_eq (agree : ∀ member, member ∈ s.zset ↔ member ∈ s.data) (now : D) (batch : Nat) :
    s.pollScript now batch =
      (s, (((s.dueEntries now).take batch).map (·.1)).filterMap s.data.lookup) := by
  have held : ∀ member ∈ ((s.dueEntries now).take batch).map (·.1), member ∈ s.data := by
    intro member h
    obtain ⟨x, hx, rfl⟩ := List.mem_map.1 h
    have hx := List.mem_of_mem_take hx
    rw [dueEntries, List.mem_insertionSort, List.mem_filter] at hx
    exact (agree x.1).1 (AList.mem_keys.2 (List.mem_map_of_mem hx.1))
  have fold : ∀ (members : List String) (found : List PyJson.Text), (∀ member ∈ members, member ∈ s.data) →
      members.foldl (fun r member => r.1.pollMember r.2 member) (s, found) =
        (s, found ++ members.filterMap s.data.lookup) := by
    intro members
    induction members with
    | nil => simp
    | cons member members ih =>
      intro found held
      obtain ⟨payload, stored⟩ := Option.isSome_iff_exists.1
        (AList.lookup_isSome.2 (held member List.mem_cons_self))
      have one : s.pollMember found member = (s, found ++ [payload]) := by rw [pollMember, stored]
      rw [List.foldl_cons, one, ih _ fun other h => held other (List.mem_cons_of_mem _ h),
        List.filterMap_cons, stored, List.append_assoc]
      rfl
  exact fold _ [] held

omit [LinearOrder D] in
/-- Scores in order by member. -/
theorem place_inj {x y : (_ : String) × D} (same : place x = place y) : x = y := by
  obtain ⟨score, member⟩ := Prod.ext_iff.1 (toLex.injective same)
  exact Sigma.ext member (heq_of_eq score)

theorem mem_dueEntries {now : D} {x : (_ : String) × D} :
    x ∈ s.dueEntries now ↔ s.zset.lookup x.1 = some x.2 ∧ x.2 ≤ now := by
  rw [dueEntries, List.mem_insertionSort, List.mem_filter, decide_eq_true_eq]
  exact and_congr_left' AList.mem_lookup_iff.symm

theorem sorted_dueEntries (now : D) : ((s.dueEntries now).map place).Pairwise (· < ·) := by
  have sorted : (s.dueEntries now).Pairwise (place · ≤ place ·) := List.pairwise_insertionSort _ _
  have nodup : (s.dueEntries now).Nodup :=
    (List.perm_insertionSort _ _).nodup_iff.2 (s.zset.nodupKeys.nodup.filter _)
  rw [List.pairwise_map]
  exact sorted.imp₂ (fun _ _ le ne => lt_of_le_of_ne le fun same => ne (place_inj same)) nodup

/-- What stands for an entry of the ZSET in the map. -/
def Entered (s : RetryStore D) (m : RetryMap limit D) (x : (_ : String) × D)
    (b : RetryKey × RetryEntry limit D) : Prop :=
  m.entry b.1 = some b.2 ∧ b.2.place b.1 = place x ∧
    ∃ payload, s.data.lookup x.1 = some payload ∧ PyJson.loads limit payload = .ok b.2.message.value

omit [LinearOrder D] in
theorem exists_entered (h : s.Represents m) {x : (_ : String) × D} (stored : s.zset.lookup x.1 = some x.2) :
    ∃ b, Entered s m x b := by
  obtain ⟨k, member, some_⟩ := h.keyed x.1 (AList.lookup_isSome.1 (by simp [stored]))
  obtain ⟨e, entry⟩ := Option.isSome_iff_exists.1 some_
  obtain ⟨score, payload, text, loads⟩ := h.stored k e entry
  rw [member] at score text
  have due : e.retryAfter = x.2 := Option.some.inj (score.symm.trans stored)
  refine ⟨(k, e), entry, ?_, payload, text, loads⟩
  rw [RetryEntry.place, place, due, member]

omit [LinearOrder D] in
/-- The messages come back from their texts. -/
theorem readEntries_entered {xs : List ((_ : String) × D)} {batch : List (RetryKey × RetryEntry limit D)}
    (each : List.Forall₂ (Entered s m) xs batch) :
    readEntries limit ((xs.map (·.1)).filterMap s.data.lookup) =
      some (batch.map fun b => b.2.message.value) := by
  induction each with
  | nil => rfl
  | @cons x b xs batch first others ih =>
    obtain ⟨-, -, payload, text, loads⟩ := first
    rw [List.map_cons, List.filterMap_cons, text, readEntries, loads]
    simp only [ih, Option.map_some, List.map_cons]

omit [LinearOrder D] in
theorem places_entered {xs : List ((_ : String) × D)} {batch : List (RetryKey × RetryEntry limit D)}
    (each : List.Forall₂ (Entered s m) xs batch) :
    (batch.map fun b => b.2.place b.1) = xs.map place := by
  induction each with
  | nil => rfl
  | cons first _ ih => rw [List.map_cons, List.map_cons, ih, first.2.1]

/-- The keys due and the entries due are as many. -/
theorem ncard_due (h : s.Represents m) (now : D) : (m.due now).ncard = (s.dueEntries now).length := by
  have nodup : ((s.dueEntries now).map (·.1)).Nodup := by
    refine ((List.perm_insertionSort _ _).map _).nodup_iff.2 ?_
    exact List.NodupKeys.sublist List.filter_sublist s.zset.nodupKeys
  have members : RetryKey.member '' m.due now = {member | member ∈ (s.dueEntries now).map (·.1)} := by
    ext member
    constructor
    · rintro ⟨k, ⟨e, entry, due⟩, rfl⟩
      exact List.mem_map.2 ⟨⟨k.member, e.retryAfter⟩, mem_dueEntries.2 ⟨(h.stored k e entry).1, due⟩, rfl⟩
    · intro mem
      obtain ⟨x, hx, rfl⟩ := List.mem_map.1 mem
      obtain ⟨stored, due⟩ := mem_dueEntries.1 hx
      obtain ⟨b, entry, place_, -⟩ := exists_entered h stored
      obtain ⟨score, member⟩ := Prod.ext_iff.1 (toLex.injective place_)
      exact ⟨b.1, ⟨b.2, entry, le_of_eq_of_le score due⟩, member⟩
  rw [← Set.ncard_image_of_injective _ RetryKey.member_injective, members, ← List.coe_toFinset,
    Set.ncard_coe_finset, List.toFinset_card_of_nodup nodup, List.length_map]

/-- Every item on one side has its fellow on the other. -/
theorem exists_fellow {α β : Type} {R : α → β → Prop} {xs : List α} {ys : List β}
    (each : List.Forall₂ R xs ys) : ∀ x ∈ xs, ∃ y ∈ ys, R x y := by
  induction each with
  | nil => simp
  | @cons x y xs ys first _ ih =>
    intro z hz
    obtain rfl | hz := List.mem_cons.1 hz
    · exact ⟨y, List.mem_cons_self, first⟩
    · obtain ⟨w, hw, r⟩ := ih z hz
      exact ⟨w, List.mem_cons_of_mem _ hw, r⟩

theorem exists_fellows {α β : Type} {R : α → β → Prop} {xs : List α} (each : ∀ x ∈ xs, ∃ y, R x y) :
    ∃ ys, List.Forall₂ R xs ys := by
  induction xs with
  | nil => exact ⟨[], .nil⟩
  | cons x xs ih =>
    obtain ⟨y, first⟩ := each x List.mem_cons_self
    obtain ⟨ys, others⟩ := ih fun z hz => each z (List.mem_cons_of_mem _ hz)
    exact ⟨y :: ys, .cons first others⟩

/-- The first entries of the ZSET that are due are what the map owes. -/
theorem polls_entered (h : s.Represents m) {now : D} {batch : List (RetryKey × RetryEntry limit D)}
    (each : List.Forall₂ (Entered s m) ((s.dueEntries now).take pollBatch) batch) :
    m.Polls now (batch.map fun b => b.2.message.value) := by
  have sorted := sorted_dueEntries (s := s) now
  refine ⟨batch, fun b hb => ?_, ?_, fun k e entry due rest b hb => ?_, ?_, rfl⟩
  · obtain ⟨x, hx, entry, place_, -⟩ := exists_fellow each.flip b hb
    have due := (mem_dueEntries.1 (List.mem_of_mem_take hx)).2
    exact ⟨entry, le_of_eq_of_le (Prod.ext_iff.1 (toLex.injective place_)).1 due⟩
  · rw [places_entered each, List.map_take]
    exact sorted.sublist (List.take_sublist _ _)
  · -- an entry that is not in the batch is behind it in the ZSET
    have due_ : ⟨k.member, e.retryAfter⟩ ∈ s.dueEntries now :=
      mem_dueEntries.2 ⟨(h.stored k e entry).1, due⟩
    obtain ⟨x, hx, -, place_, -⟩ := exists_fellow each.flip b hb
    rw [← List.take_append_drop pollBatch (s.dueEntries now)] at due_ sorted
    obtain inside | behind := List.mem_append.1 due_
    · obtain ⟨b', hb', entry', place', -⟩ := exists_fellow each _ inside
      have key : b'.1 = k := RetryKey.member_injective (Prod.ext_iff.1 (toLex.injective place')).2
      rw [key, entry] at entry'
      obtain ⟨k', e'⟩ := b'
      obtain rfl : k' = k := key
      obtain rfl : e = e' := Option.some.inj entry'
      exact absurd hb' rest
    · rw [List.map_append, List.pairwise_append] at sorted
      rw [place_]
      exact sorted.2.2 _ (List.mem_map_of_mem hx) _ (List.mem_map_of_mem behind)
  · rw [← each.length_eq, List.length_take, ncard_due h]

/-- A poll returns what the map owes and changes nothing. -/
theorem exec_pollDue (h : s.Represents m) (now : D) : ∃ messages,
    s.exec (.pollDue now : RetryCall limit D) = (s, .polled messages) ∧ m.Polls now messages := by
  have found : ∀ x ∈ (s.dueEntries now).take pollBatch, ∃ b, Entered s m x b := fun x hx =>
    exists_entered h (mem_dueEntries.1 (List.mem_of_mem_take hx)).1
  obtain ⟨batch, each⟩ := exists_fellows found
  refine ⟨_, ?_, polls_entered h each⟩
  simp only [exec, pollScript_eq h.agree, readEntries_entered each]

end RetryStore

end

/-! ## Calls -/

/-- The attempt numbers `backoff_seconds` takes. -/
def RetryKey.InRange (k : RetryKey) : Prop :=
  -(Binary64.overflow : Int) < k.attemptNumber ∧ k.attemptNumber < 1024

/-- The least integer that is no float has no more digits than `str` prints. -/
theorem overflow_size : 1024 ≤ Binary64.overflow ∧ Binary64.overflow ≤ 10 ^ PyJson.maxDigits := by
  have least : ∀ e, 1024 ≤ (2 ^ 54 - 1) * 2 ^ e := fun e =>
    Nat.mul_le_mul (by decide : 1024 ≤ 2 ^ 54 - 1) (Nat.two_pow_pos e)
  have decimal : ∀ e k, 54 + e ≤ k → (2 ^ 54 - 1) * 2 ^ e ≤ 10 ^ k := fun e k le => by
    refine Nat.le_trans ?_ (Nat.pow_le_pow_right (by decide) le)
    rw [Nat.pow_add]
    exact Nat.mul_le_mul (by decide) (Nat.pow_le_pow_left (by decide) e)
  exact ⟨least 970, decimal 970 _ (by decide)⟩

theorem exponentialFits_iff {k : RetryKey} : exponentialFits k.attemptNumber = true ↔ k.InRange := by
  have size := overflow_size.1
  unfold exponentialFits RetryKey.InRange
  split
  · rw [Binary64.ofInt_two_pow]
    omega
  · rw [Binary64.ofInt_isSome]
    omega

/-- Such a number is not too long to print. -/
theorem RetryKey.render_inRange {k : RetryKey} (h : k.InRange) : k.render = some k.member := by
  have size : k.attemptNumber.natAbs < 10 ^ PyJson.maxDigits := by
    have bounds := overflow_size
    obtain ⟨low, high⟩ := h
    omega
  rw [RetryKey.render, if_pos ((Nat.length_toDigits_le_iff (by decide) (by decide)).2 size)]

section

variable {limit : Nat} {D : Type}

/-- Every attempt number that is scheduled is in range. -/
def RetryCall.Accepted : RetryCall limit D → Prop
  | .schedule k _ _ => k.InRange
  | .cancel _ | .pollDue _ => True

theorem mapAfter_inRange {calls : List (RetryCall limit D)} (ok : ∀ call ∈ calls, call.Accepted) :
    ∀ k, ((mapAfter calls).entry k).isSome → k.InRange := by
  induction calls using List.reverseRecOn with
  | nil => exact fun k none => by cases none
  | append_singleton calls call ih =>
    have ih := ih fun c hc => ok c (List.mem_append_left _ hc)
    have last := ok call (by simp)
    intro k held
    rw [mapAfter, List.foldl_append, List.foldl_cons, List.foldl_nil] at held
    cases call with
    | schedule k' message retryAfter =>
      by_cases same : k = k'
      · exact same ▸ last
      · rw [RetryMap.apply, RetryMap.entry_update_of_ne _ same] at held
        exact ih k held
    | cancel k' =>
      by_cases same : k = k'
      · simp [RetryMap.apply, same] at held
      · rw [RetryMap.apply, RetryMap.entry_update_of_ne _ same] at held
        exact ih k held
    | pollDue now => exact ih k held

variable [LinearOrder D]

theorem exec_schedule_accepted (s : RetryStore D) {k : RetryKey} (h : k.InRange)
    (message : JsonMessage limit) (retryAfter : D) : ∃ payload,
    PyJson.loads limit payload = .ok message.value ∧
      s.exec (.schedule k message retryAfter) = (s.scheduleScript k.member payload retryAfter, .done) := by
  obtain ⟨t, denoted⟩ := message.denoted
  obtain ⟨payload, writes, loads⟩ := PyJson.loads_exact denoted
  have text : PyJson.dumps limit message.value = some payload := writes
  refine ⟨payload, loads, ?_⟩
  simp only [RetryStore.exec, exponentialFits_iff.2 h, if_true, RetryKey.render_inRange h, text]

/-- `backoff_seconds` raises `OverflowError`, and nothing is written. -/
theorem exec_schedule_raised (s : RetryStore D) {k : RetryKey} (h : ¬ k.InRange)
    (message : JsonMessage limit) (retryAfter : D) :
    s.exec (.schedule k message retryAfter) = (s, .raised) := by
  rw [RetryStore.exec, if_neg (mt exponentialFits_iff.1 h)]

/-- One call keeps the store the map it represents. -/
theorem exec_represents {s : RetryStore D} {m : RetryMap limit D} (h : s.Represents m)
    (inRange : ∀ k, (m.entry k).isSome → k.InRange) {call : RetryCall limit D} (ok : call.Accepted) :
    (s.exec call).1.Represents (m.apply call) := by
  cases call with
  | schedule k message retryAfter =>
    obtain ⟨payload, loads, run⟩ := exec_schedule_accepted s ok message retryAfter
    rw [run]
    exact RetryStore.represents_schedule h k message retryAfter loads
  | cancel k =>
    simp only [RetryStore.exec, RetryMap.apply]
    by_cases held : (m.entry k).isSome
    · rw [RetryKey.render_inRange (inRange k held)]
      exact RetryStore.represents_cancel h k
    · cases shown : k.render with
      | some member =>
        obtain rfl : k.member = member := (Option.ite_none_right_eq_some.1 shown).2 |> Option.some.inj
        exact RetryStore.represents_cancel h k
      | none =>
        -- a number too long to print has no entry
        rwa [RetryMap.update_absent (by simpa using held)]
  | pollDue now =>
    obtain ⟨messages, run, -⟩ := RetryStore.exec_pollDue h now
    rw [run]
    exact h

theorem storeAfter_represents {calls : List (RetryCall limit D)} (ok : ∀ call ∈ calls, call.Accepted) :
    (storeAfter calls).Represents (mapAfter calls) := by
  induction calls using List.reverseRecOn with
  | nil => exact RetryStore.represents_empty
  | append_singleton calls call ih =>
    have before : ∀ c ∈ calls, c.Accepted := fun c hc => ok c (List.mem_append_left _ hc)
    rw [storeAfter, mapAfter, List.foldl_append, List.foldl_append]
    exact exec_represents (ih before) (mapAfter_inRange before) (ok call (by simp))

theorem refines_of_accepted {calls : List (RetryCall limit D)} (ok : ∀ call ∈ calls, call.Accepted) :
    Refines calls where
  distinct := RetryKey.member_injective
  represents before part := storeAfter_represents fun c hc => ok c (part.subset hc)
  polls before now part := by
    refine RetryStore.exec_pollDue (storeAfter_represents fun c hc => ?_) now
    exact ok c (part.subset (List.mem_append_left _ hc))

theorem Refines.of_append {calls calls' : List (RetryCall limit D)} (h : Refines (calls ++ calls')) :
    Refines calls where
  distinct := h.distinct
  represents before part := h.represents before (part.trans (List.prefix_append _ _))
  polls before now part := h.polls before now (part.trans (List.prefix_append _ _))

/-- A call to `schedule` that raises leaves out an entry the map has. -/
theorem not_refines_schedule {calls : List (RetryCall limit D)} (ok : ∀ call ∈ calls, call.Accepted)
    {k : RetryKey} (out : ¬ k.InRange) (message : JsonMessage limit) (retryAfter : D) :
    ¬ Refines (calls ++ [.schedule k message retryAfter]) := by
  intro h
  have after := h.represents _ (List.prefix_refl _)
  rw [storeAfter, mapAfter, List.foldl_append, List.foldl_append, List.foldl_cons, List.foldl_cons,
    List.foldl_nil, List.foldl_nil, exec_schedule_raised _ out] at after
  have entered := (after.stored k ⟨retryAfter, message⟩ (RetryMap.entry_update_self _ _ _)).1
  have before : (storeAfter calls).Represents (mapAfter calls) := h.of_append.represents _ (List.prefix_refl _)
  obtain ⟨k', member, held⟩ := before.keyed k.member (AList.lookup_isSome.1 (entered ▸ rfl))
  obtain rfl := RetryKey.member_injective member
  exact out (mapAfter_inRange ok k' held)

theorem Refines.accepted {calls : List (RetryCall limit D)} (h : Refines calls) :
    ∀ call ∈ calls, call.Accepted := by
  induction calls using List.reverseRecOn with
  | nil => simp
  | append_singleton calls call ih =>
    have before := ih h.of_append
    intro c hc
    obtain old | last := List.mem_append.1 hc
    · exact before c old
    · obtain rfl := List.mem_singleton.1 last
      cases c with
      | schedule k message retryAfter =>
        by_contra out
        exact not_refines_schedule before out message retryAfter h
      | cancel | pollDue => trivial

/-- Through any calls of the clients the scheduler is the map, if and only if no call schedules an
attempt number that is out of range. -/
theorem retry_store_refines (calls : List (RetryCall limit D)) :
    Refines calls ↔ ∀ call ∈ calls, call.Accepted :=
  ⟨Refines.accepted, refines_of_accepted⟩

end

/-- `{}`, as a message. -/
def JsonMessage.empty : JsonMessage 1000 := ⟨[], ['{', '}'], rfl⟩

theorem retry_store_overflow :
    ¬ Refines [RetryCall.schedule ⟨⟨1⟩, ⟨2⟩, 1024⟩ JsonMessage.empty (0 : Nat)] := fun h =>
  absurd (h.accepted _ List.mem_cons_self).2 (by decide)

end HookRelay
