import HookRelay.MessageGrammar
import HookRelay.RetryStore

/-!
# One tick of `run_scheduler`

`poll_due` and the loop over its result, over whatever Redis holds: the payloads are arbitrary texts, and
each exception that Python raises on the way either skips an entry or ends the tick. Redis and Kafka are
available. A tick is told by its effects in order, the texts published and the keys cancelled.
-/

namespace HookRelay

open PyJson (Value Field Text)

/-- What the body of the loop makes of a message: an entry to republish, a malformed one that it skips,
or an exception that leaves the loop. -/
inductive Polled where
  | entry (k : RetryKey)
  | malformed
  | fatal

/-- `UUID(message[key])`. -/
def readRequired (fields : List Field) (key : String) : Except ReadError UUID :=
  match getField fields key with
  | some v => readUuid v
  | none => .error .poison

/-- The `try` block. -/
def readIds (fields : List Field) : Except ReadError (UUID × UUID) := do
  let eventId ← readRequired fields "event_id"
  let endpointId ← readRequired fields "endpoint_id"
  .ok (eventId, endpointId)

/-- The body up to its publish. `int` stands outside the `try` block. -/
def readPolled : Value → Polled
  | .obj fields =>
    match readIds fields with
    | .error .poison => .malformed
    | .error .other => .fatal
    | .ok (eventId, endpointId) =>
      match readInt ((getField fields "attempt_number").getD (.int 0)) with
      | .ok attemptNumber => .entry ⟨eventId, endpointId, attemptNumber⟩
      | .error _ => .fatal
  | _ => .fatal

inductive TickEffect where
  | published (text : Text)
  | cancelled (k : RetryKey)

/-- A tick that has come to its end, or was left by an exception. -/
structure Tick (D : Type) where
  store : RetryStore D
  effects : List TickEffect
  returned : Bool

namespace RetryStore

variable (limit : Nat) {D : Type}

/-- The loop over the polled messages: each entry is published, then cancelled. -/
def republish (s : RetryStore D) : List Value → Tick D
  | [] => ⟨s, [], true⟩
  | message :: rest =>
    match readPolled message with
    | .malformed => s.republish rest
    | .fatal => ⟨s, [], false⟩
    | .entry k =>
      match PyJson.dumps limit message, k.render with
      | some text, some member =>
        let tick := (s.cancelScript member).republish rest
        { tick with effects := .published text :: .cancelled k :: tick.effects }
      | some text, none => ⟨s, [.published text], false⟩
      | none, _ => ⟨s, [], false⟩

variable [LinearOrder D]

/-- `poll_due` and the loop. -/
def tick (s : RetryStore D) (now : D) : Tick D :=
  let (s, entries) := s.pollScript now pollBatch
  match readEntries limit entries with
  | some messages => s.republish limit messages
  | none => ⟨s, [], false⟩

/-- The members in the polled batch. -/
def batch (s : RetryStore D) (now : D) : List String :=
  ((s.dueEntries now).take pollBatch).map (·.1)

/-- Their payloads. -/
def payloads (s : RetryStore D) (now : D) : List Text := (s.batch now).filterMap s.data.lookup

end RetryStore

/-! ## Payloads -/

/-- The payload is a message with the ids of an entry and its attempt number, and is published as
`text`. -/
def WellFormed (limit : Nat) (payload : Text) (k : RetryKey) (text : Text) : Prop :=
  ∃ v, PyJson.loads limit payload = .ok v ∧ readPolled v = .entry k ∧ PyJson.dumps limit v = some text

/-- An object whose fields have the types that the loop is written for, as far as it reads them. -/
def retryable : Value → Bool
  | .obj fields =>
    match getField fields "event_id" with
    | none => true
    | some eventId =>
      isText eventId && (!(readUuid eventId).toBool ||
        match getField fields "endpoint_id" with
        | none => true
        | some endpointId =>
          isText endpointId && (!(readUuid endpointId).toBool ||
            (readInt ((getField fields "attempt_number").getD (.int 0))).toBool))
  | _ => false

/-- The payload is no JSON, or such an object that `json.loads` returns: one that is not nested too
deeply, and without integers of too many digits. -/
def Harmless (limit : Nat) (payload : Text) : Prop :=
  match PyJson.loads limit payload with
  | .ok v => retryable v = true
  | .error e => e = .decode

/-- The tick survives its batch: it returns, having published and then cancelled every well-formed
entry, and nothing else. -/
structure Survives {D : Type} [LinearOrder D] (limit : Nat) (s : RetryStore D) (now : D) : Prop where
  returned : (s.tick limit now).returned = true
  republished : ∀ payload ∈ s.payloads now, ∀ k text, WellFormed limit payload k text →
    [.published text, .cancelled k] <:+: (s.tick limit now).effects
  removed : ∀ payload ∈ s.payloads now, ∀ k text, WellFormed limit payload k text →
    k.member ∉ (s.tick limit now).store.zset ∧ k.member ∉ (s.tick limit now).store.data
  only : ∀ text, .published text ∈ (s.tick limit now).effects →
    ∃ payload ∈ s.payloads now, ∃ k, WellFormed limit payload k text

section

variable {limit : Nat} {v : Value} {fields : List Field} {payload text : Text} {k : RetryKey}

theorem readPolled_fatal : readPolled v = .fatal ↔ retryable v = false := by
  cases v with
  | obj fields =>
    simp only [readPolled, retryable, readIds, readRequired, bind, Except.bind]
    cases getField fields "event_id" with
    | none => simp
    | some w =>
      have event := readUuid_other (v := w)
      cases readEvent : readUuid w with
      | error e => cases e <;> simp_all [Except.toBool]
      | ok eventId =>
        cases getField fields "endpoint_id" with
        | none => simp_all [Except.toBool]
        | some w' =>
          have endpoint := readUuid_other (v := w')
          cases readEndpoint : readUuid w' with
          | error e => cases e <;> simp_all [Except.toBool]
          | ok endpointId =>
            cases readInt ((getField fields "attempt_number").getD (.int 0)) <;>
              simp_all [Except.toBool]
  | null | bool | int | float | str | arr => simp [readPolled, retryable]

/-! ## Numbers that `str` prints -/

theorem dumps_field {fields : List Field} {field : Field} (mem : field ∈ fields)
    (writes : (PyJson.dumps limit (.obj fields)).isSome) : ∃ limit', (PyJson.dumps limit' field.2).isSome := by
  cases limit with
  | zero => simp [PyJson.dumps] at writes
  | succ limit =>
    obtain ⟨text, writes⟩ := Option.isSome_iff_exists.1 writes
    simp only [PyJson.dumps, Option.bind_eq_bind, Option.bind_eq_some_iff] at writes
    obtain ⟨items, each, -⟩ := writes
    obtain ⟨item, -, one⟩ := RetryStore.exists_fellow (PyJson.forall₂_of_mapM each) field mem
    simp only [Option.bind_eq_some_iff] at one
    obtain ⟨-, value, inner, -⟩ := one
    exact ⟨limit, by rw [inner]; rfl⟩

/-- What `int` makes of a field that was loaded is not too long for `str`. -/
theorem readInt_short (loads : PyJson.loads limit payload = .ok (.obj fields)) {key : String} {n : Int}
    (read : readInt ((getField fields key).getD (.int 0)) = .ok n) :
    (Nat.toDigits 10 n.natAbs).length ≤ PyJson.maxDigits := by
  refine (Nat.length_toDigits_le_iff (by decide) (by decide)).2 ?_
  have float : ∀ (rank : Fin Binary64.top) (k : Nat), k = 1024 →
      Binary64.truncate rank < 10 ^ PyJson.maxDigits := by
    intro rank k bits
    refine (Binary64.truncate_lt rank bits).trans_le ?_
    refine (Nat.pow_le_pow_left (by decide : 2 ≤ 10) k).trans ?_
    exact Nat.pow_le_pow_right (by decide) (by rw [bits]; decide)
  obtain ⟨text, writes, -⟩ := PyJson.loads_exact loads
  cases found : getField fields key with
  | none =>
    rw [found] at read
    obtain rfl := Except.ok.inj read
    exact Nat.pow_pos (by decide)
  | some w =>
    rw [found, Option.getD_some] at read
    obtain ⟨field, there, rfl⟩ := Option.map_eq_some_iff.1 found
    obtain ⟨limit', inner⟩ := dumps_field (List.mem_of_find?_eq_some there) (by rw [writes]; rfl)
    cases value : field.2 with
    | int m =>
      rw [value] at read inner
      obtain rfl := Except.ok.inj read
      simp only [PyJson.dumps, Option.isSome_ite] at inner
      exact (Nat.length_toDigits_le_iff (by decide) (by decide)).1 inner
    | bool b =>
      rw [value] at read
      obtain rfl := Except.ok.inj read
      cases b
      · exact Nat.pow_pos (by decide)
      · exact Nat.one_lt_pow (by decide) (by decide)
    | float x =>
      rw [value] at read
      cases x with
      | finite negative rank =>
        obtain rfl := Except.ok.inj read
        have short := float rank _ rfl
        cases negative <;> simpa using short
      | infinity | nan => cases read
    | str s =>
      rw [value] at read
      simp only [readInt] at read
      cases number : PyText.parseInt 10 s with
      | none =>
        rw [number] at read
        cases read
      | some m =>
        rw [number] at read
        obtain rfl := Except.ok.inj read
        exact PyText.parseInt_natAbs_lt number
    | null | arr | obj =>
      rw [value] at read
      cases read

theorem readPolled_entry : readPolled v = .entry k ↔ ∃ fields, v = .obj fields ∧
    readIds fields = .ok (k.eventId, k.endpointId) ∧
    readInt ((getField fields "attempt_number").getD (.int 0)) = .ok k.attemptNumber := by
  obtain ⟨eventId, endpointId, attemptNumber⟩ := k
  cases v with
  | obj fields =>
    simp only [readPolled, Value.obj.injEq, exists_eq_left']
    cases readIds fields with
    | error e => cases e <;> simp
    | ok ids =>
      obtain ⟨e, p⟩ := ids
      cases readInt ((getField fields "attempt_number").getD (.int 0)) <;> simp
      tauto
  | null | bool | int | float | str | arr => simp [readPolled]

theorem harmless_ok (loads : PyJson.loads limit payload = .ok v) :
    Harmless limit payload ↔ readPolled v ≠ .fatal := by
  rw [Harmless, loads, Ne, readPolled_fatal, Bool.not_eq_false]

theorem harmless_error {e : PyJson.LoadError} (raises : PyJson.loads limit payload = .error e) :
    Harmless limit payload ↔ e = .decode := by
  rw [Harmless, raises]

/-- An entry that was loaded can be published and cancelled. -/
theorem entry_loaded (loads : PyJson.loads limit payload = .ok v) (entry : readPolled v = .entry k) :
    k.render = some k.member ∧ ∃ text, PyJson.dumps limit v = some text := by
  obtain ⟨fields, rfl, -, read⟩ := readPolled_entry.1 entry
  obtain ⟨text, writes, -⟩ := PyJson.loads_exact loads
  exact ⟨if_pos (readInt_short loads read), text, writes⟩

/-! ## The loop -/

/-- The key of a message that is republished. -/
def entryKey (v : Value) : Option RetryKey :=
  match readPolled v with
  | .entry k => some k
  | _ => none

/-- The effects of the round for a message. -/
def roundEffects (limit : Nat) (v : Value) : List TickEffect :=
  match readPolled v, PyJson.dumps limit v with
  | .entry k, some text => [.published text, .cancelled k]
  | _, _ => []

variable {D : Type} {s : RetryStore D}

namespace RetryStore

def cancelAll (s : RetryStore D) (ks : List RetryKey) : RetryStore D :=
  ks.foldl (fun s k => s.cancelScript k.member) s

theorem lookup_cancelAll (s : RetryStore D) (ks : List RetryKey) (member : String) :
    (s.cancelAll ks).zset.lookup member =
        (if member ∈ ks.map (·.member) then none else s.zset.lookup member) ∧
      (s.cancelAll ks).data.lookup member =
        if member ∈ ks.map (·.member) then none else s.data.lookup member := by
  induction ks generalizing s with
  | nil => exact ⟨rfl, rfl⟩
  | cons k ks ih =>
    obtain ⟨zset, data⟩ := ih (s.cancelScript k.member)
    rw [cancelAll, List.foldl_cons, ← cancelAll, zset, data]
    by_cases same : member = k.member
    · subst same
      simp [cancelScript]
    · simp [cancelScript, same, AList.lookup_erase_ne same]

/-- Without an exception every round does its part. -/
theorem republish_eq (s : RetryStore D) {messages : List Value} (fine : ∀ v ∈ messages, readPolled v ≠ .fatal ∧
      ∀ k, readPolled v = .entry k → k.render = some k.member ∧ ∃ text, PyJson.dumps limit v = some text) :
    s.republish limit messages =
      ⟨s.cancelAll (messages.filterMap entryKey), messages.flatMap (roundEffects limit), true⟩ := by
  induction messages generalizing s with
  | nil => rfl
  | cons v rest ih =>
    obtain ⟨alive, printed⟩ := fine v List.mem_cons_self
    have ih := fun s => ih s fun w hw => fine w (List.mem_cons_of_mem _ hw)
    cases polled : readPolled v with
    | entry k =>
      obtain ⟨render, text, writes⟩ := printed k polled
      simp only [republish, polled, writes, render, ih, entryKey, roundEffects, List.filterMap_cons,
        List.flatMap_cons, cancelAll, List.foldl_cons, List.cons_append, List.nil_append]
    | malformed =>
      simp only [republish, polled, ih, entryKey, roundEffects, List.filterMap_cons, List.flatMap_cons,
        List.nil_append]
    | fatal => exact absurd polled alive

/-- A message that the loop cannot read ends it. -/
theorem republish_raises (s : RetryStore D) {messages : List Value}
    (fatal : ∃ v ∈ messages, readPolled v = .fatal) : (s.republish limit messages).returned = false := by
  induction messages generalizing s with
  | nil =>
    obtain ⟨v, none, -⟩ := fatal
    cases none
  | cons v rest ih =>
    cases polled : readPolled v with
    | fatal => simp only [republish, polled]
    | malformed =>
      obtain ⟨w, hw, fatal⟩ := fatal
      obtain rfl | hw := List.mem_cons.1 hw
      · cases polled.symm.trans fatal
      · simp only [republish, polled]
        exact ih s ⟨w, hw, fatal⟩
    | entry k =>
      obtain ⟨w, hw, fatal⟩ := fatal
      obtain rfl | hw := List.mem_cons.1 hw
      · cases polled.symm.trans fatal
      · simp only [republish, polled]
        split
        · exact ih _ ⟨w, hw, fatal⟩
        · rfl
        · rfl

/-! ## The poll -/

/-- The ZSET less those of the members that have no payload. -/
def dropOrphans (s : RetryStore D) (members : List String) : RetryStore D :=
  members.foldl (fun s member => (s.pollMember [] member).1) s

theorem lookup_dropOrphans (s : RetryStore D) (members : List String) (member : String) :
    (s.dropOrphans members).data = s.data ∧ (s.dropOrphans members).zset.lookup member =
      if member ∈ members ∧ s.data.lookup member = none then none else s.zset.lookup member := by
  induction members generalizing s with
  | nil => simp [dropOrphans]
  | cons m members ih =>
    rw [dropOrphans, List.foldl_cons, ← dropOrphans]
    obtain ⟨data, zset⟩ := ih (s.pollMember [] m).1
    have kept : (s.pollMember [] m).1.data = s.data := by
      unfold pollMember
      split <;> rfl
    rw [kept] at data zset
    refine ⟨data, ?_⟩
    rw [zset]
    cases held : s.data.lookup m with
    | some payload =>
      have same : (s.pollMember [] m).1 = s := by rw [pollMember, held]
      rw [same]
      by_cases eq : member = m
      · subst eq
        simp [held]
      · simp [eq]
    | none =>
      have erased : (s.pollMember [] m).1.zset = s.zset.erase m := by rw [pollMember, held]
      rw [erased]
      by_cases eq : member = m
      · subst eq
        simp [held]
      · simp [eq, AList.lookup_erase_ne eq]

theorem pollFold_eq (s : RetryStore D) (members : List String) (found : List Text) :
    members.foldl (fun r member => r.1.pollMember r.2 member) (s, found) =
      (s.dropOrphans members, found ++ members.filterMap s.data.lookup) := by
  induction members generalizing s found with
  | nil => simp [dropOrphans]
  | cons m members ih =>
    rw [List.foldl_cons, List.filterMap_cons, dropOrphans, List.foldl_cons, ← dropOrphans]
    cases held : s.data.lookup m with
    | some payload =>
      have one : ∀ found, s.pollMember found m = (s, found ++ [payload]) := fun found => by
        rw [pollMember, held]
      rw [one, one, ih, List.append_assoc]
      rfl
    | none =>
      have one : ∀ found, s.pollMember found m = ({ s with zset := s.zset.erase m }, found) := fun found => by
        rw [pollMember, held]
      rw [one, one, ih]

variable (limit) in
/-- The messages that are read from the payloads. -/
def messages (payloads : List Text) : List Value :=
  payloads.filterMap fun payload => (PyJson.loads limit payload).toOption

theorem mem_messages {payloads : List Text} :
    v ∈ messages limit payloads ↔ ∃ payload ∈ payloads, PyJson.loads limit payload = .ok v := by
  simp only [messages, List.mem_filterMap]
  refine exists_congr fun payload => and_congr_right fun _ => ?_
  cases PyJson.loads limit payload <;> simp [Except.toOption]

theorem readEntries_eq {payloads : List Text}
    (calm : ∀ payload ∈ payloads, ∀ e, PyJson.loads limit payload = .error e → e = .decode) :
    readEntries limit payloads = some (messages limit payloads) := by
  induction payloads with
  | nil => rfl
  | cons payload rest ih =>
    have ih := ih fun p hp => calm p (List.mem_cons_of_mem _ hp)
    cases loads : PyJson.loads limit payload with
    | ok v =>
      have read : messages limit (payload :: rest) = v :: messages limit rest := by
        simp only [messages, List.filterMap_cons, loads, Except.toOption]
      rw [readEntries, loads, read]
      simp only [ih, Option.map_some]
    | error e =>
      obtain rfl := calm payload List.mem_cons_self e loads
      have skipped : messages limit (payload :: rest) = messages limit rest := by
        simp only [messages, List.filterMap_cons, loads, Except.toOption]
      rw [readEntries, loads, skipped]
      exact ih

theorem readEntries_raises {payloads : List Text}
    (bad : ∃ payload ∈ payloads, ∃ e, PyJson.loads limit payload = .error e ∧ e ≠ .decode) :
    readEntries limit payloads = none := by
  induction payloads with
  | nil =>
    obtain ⟨payload, none, -⟩ := bad
    cases none
  | cons payload rest ih =>
    obtain ⟨p, hp, e, raises, other⟩ := bad
    have later : p ≠ payload → readEntries limit rest = none := fun ne =>
      ih ⟨p, (List.mem_cons.1 hp).resolve_left ne, e, raises, other⟩
    unfold readEntries
    cases loads : PyJson.loads limit payload with
    | ok v =>
      have ne : p ≠ payload := by
        rintro rfl
        cases raises.symm.trans loads
      simp [later ne]
    | error e' =>
      cases e' with
      | decode =>
        have ne : p ≠ payload := by
          rintro rfl
          cases raises.symm.trans loads
          exact other rfl
        simp [later ne]
      | digits | recursion => rfl

/-! ## The tick -/

variable [LinearOrder D] {now : D}

theorem pollScript_batch (s : RetryStore D) (now : D) :
    s.pollScript now pollBatch = (s.dropOrphans (s.batch now), s.payloads now) :=
  pollFold_eq s (s.batch now) []

/-- A tick over harmless payloads. -/
theorem tick_eq (harmless : ∀ payload ∈ s.payloads now, Harmless limit payload) :
    s.tick limit now =
      ⟨(s.dropOrphans (s.batch now)).cancelAll ((messages limit (s.payloads now)).filterMap entryKey),
        (messages limit (s.payloads now)).flatMap (roundEffects limit), true⟩ := by
  have calm : ∀ payload ∈ s.payloads now, ∀ e, PyJson.loads limit payload = .error e → e = .decode := by
    intro payload hp e raises
    exact (harmless_error raises).1 (harmless payload hp)
  have fine : ∀ v ∈ messages limit (s.payloads now), readPolled v ≠ .fatal ∧
      ∀ k, readPolled v = .entry k → k.render = some k.member ∧ ∃ text, PyJson.dumps limit v = some text := by
    intro v hv
    obtain ⟨payload, hp, loads⟩ := mem_messages.1 hv
    exact ⟨(harmless_ok loads).1 (harmless payload hp), fun k entry => entry_loaded loads entry⟩
  rw [tick, pollScript_batch]
  simp only [readEntries_eq calm, republish_eq _ fine]

/-- Any other payload in the batch ends the tick by an exception. -/
theorem tick_raises (bad : ∃ payload ∈ s.payloads now, ¬ Harmless limit payload) :
    (s.tick limit now).returned = false := by
  obtain ⟨payload, hp, bad⟩ := bad
  rw [tick, pollScript_batch]
  dsimp only
  cases read : readEntries limit (s.payloads now) with
  | none => rfl
  | some found =>
    have calm : ∀ payload ∈ s.payloads now, ∀ e, PyJson.loads limit payload = .error e → e = .decode := by
      intro payload hp e raises
      by_contra other
      cases read.symm.trans (readEntries_raises ⟨payload, hp, e, raises, other⟩)
    obtain rfl := Option.some.inj (read.symm.trans (readEntries_eq calm))
    refine republish_raises _ ?_
    cases loads : PyJson.loads limit payload with
    | error e =>
      rw [harmless_error loads] at bad
      exact absurd (calm payload hp e loads) bad
    | ok v =>
      rw [harmless_ok loads, not_not] at bad
      exact ⟨v, mem_messages.2 ⟨payload, hp, loads⟩, bad⟩

theorem roundEffects_wellFormed (wellFormed : WellFormed limit payload k text) :
    ∃ v, PyJson.loads limit payload = .ok v ∧ entryKey v = some k ∧
      roundEffects limit v = [.published text, .cancelled k] := by
  obtain ⟨v, loads, entry, writes⟩ := wellFormed
  exact ⟨v, loads, by rw [entryKey, entry], by rw [roundEffects, entry, writes]⟩

theorem published_roundEffects (h : .published text ∈ roundEffects limit v) :
    ∃ k, readPolled v = .entry k ∧ PyJson.dumps limit v = some text := by
  unfold roundEffects at h
  split at h
  · rename_i k text' entry writes
    obtain same | other := List.mem_cons.1 h
    · cases same
      exact ⟨k, entry, writes⟩
    · cases List.mem_singleton.1 other
  · cases h

/-- A tick survives its batch if and only if every payload in it is harmless. -/
theorem survives_iff (s : RetryStore D) (now : D) :
    Survives limit s now ↔ ∀ payload ∈ s.payloads now, Harmless limit payload := by
  constructor
  · intro h payload hp
    by_contra bad
    have raised := tick_raises ⟨payload, hp, bad⟩
    rw [h.returned] at raised
    cases raised
  · intro harmless
    have tick := tick_eq harmless
    constructor
    case returned => rw [tick]
    case republished =>
      intro payload hp k text wellFormed
      obtain ⟨v, loads, -, effects⟩ := roundEffects_wellFormed wellFormed
      rw [tick, ← effects]
      obtain ⟨front, back, split⟩ := List.append_of_mem (mem_messages.2 ⟨payload, hp, loads⟩)
      rw [split, List.flatMap_append, List.flatMap_cons, ← List.append_assoc]
      exact List.infix_append _ _ _
    case removed =>
      intro payload hp k text wellFormed
      obtain ⟨v, loads, key, -⟩ := roundEffects_wellFormed wellFormed
      have cancelled : k.member ∈
          ((messages limit (s.payloads now)).filterMap entryKey).map (·.member) :=
        List.mem_map_of_mem (List.mem_filterMap.2 ⟨v, mem_messages.2 ⟨payload, hp, loads⟩, key⟩)
      obtain ⟨zset, data⟩ := lookup_cancelAll (s.dropOrphans (s.batch now))
        ((messages limit (s.payloads now)).filterMap entryKey) k.member
      rw [if_pos cancelled] at zset data
      rw [tick]
      exact ⟨AList.lookup_eq_none.1 zset, AList.lookup_eq_none.1 data⟩
    case only =>
      intro text published
      rw [tick] at published
      obtain ⟨v, hv, mem⟩ := List.mem_flatMap.1 published
      obtain ⟨payload, hp, loads⟩ := mem_messages.1 hv
      obtain ⟨k, entry, writes⟩ := published_roundEffects mem
      exact ⟨payload, hp, k, v, loads, entry, writes⟩

end RetryStore

end

/-- One entry is due, and its payload is a list. -/
theorem list_payload_ends_tick :
    ¬ Survives 1000 ((RetryStore.empty : RetryStore Nat).scheduleScript "corrupt" ['[', ']'] 0) 0 := by
  intro survives
  have list : PyJson.loads 1000 ['[', ']'] = .ok (.arr []) := rfl
  have bad : ¬ Harmless 1000 ['[', ']'] := fun fine => (harmless_ok list).1 fine rfl
  have polled : ['[', ']'] ∈
      ((RetryStore.empty : RetryStore Nat).scheduleScript "corrupt" ['[', ']'] 0).payloads 0 := by decide
  have raised := RetryStore.tick_raises ⟨_, polled, bad⟩
  rw [survives.returned] at raised
  cases raised

end HookRelay
