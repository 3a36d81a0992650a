import HookRelay.Lib.PyTextRoundTrip
import HookRelay.SchedulerTick

/-!
# The messages of the pending topic, written and read

What `HookRelayProducer.publish` and `schedule` write of the dicts that the workers and the API build, and
what `_process_record` and `run_scheduler` read in it. The recursion limit may be another in each process.
-/

namespace HookRelay

open PyJson (Value Field Text)
open PyText (str)

/-- The dict of a message. -/
def Message.fields (m : Message) : List Field :=
  (str "event_id", .str (str m.eventId.toString)) ::
    ((m.endpointId.map fun endpointId => (str "endpoint_id", .str (str endpointId.toString))).toList ++
      (m.attemptNumber.map fun n => (str "attempt_number", .int n)).toList)

def Message.value (m : Message) : Value := .obj m.fields

/-- The value of the record, or an exception. -/
def publish (limit : Nat) (message : Value) : Option (List UInt8) :=
  (PyJson.dumps limit message).map PyText.encodeUtf8

/-- `schedule` of any dict, or an exception. -/
def RetryStore.schedule {D : Type} (limit : Nat) (s : RetryStore D) (k : RetryKey) (message : Value)
    (retryAfter : D) : Option (RetryStore D) :=
  if exponentialFits k.attemptNumber then
    match k.render, PyJson.dumps limit message with
    | some member, some payload => some (s.scheduleScript member payload retryAfter)
    | _, _ => none
  else none

/-- What `_process_record` makes of the value of a record, if it is JSON. -/
def readRecord (limit : Nat) (raw : List UInt8) : Option (Except ReadError RawMessage) :=
  (deserialize limit raw).map readMessage

/-- Whatever is stored, the round of the loop for the message publishes it and removes the entry of `k`,
and nothing else. -/
def Republishes (D : Type) (limit : Nat) (message : Value) (k : RetryKey) : Prop :=
  ∀ s : RetryStore D, ∃ text, PyJson.dumps limit message = some text ∧
    (s.republish limit [message]).returned = true ∧
    (s.republish limit [message]).effects = [.published text, .cancelled k] ∧
    k.member ∉ (s.republish limit [message]).store.zset ∧
    k.member ∉ (s.republish limit [message]).store.data ∧
    (∀ k', k' ≠ k → k'.member ≠ k.member) ∧
    ∀ member, member ≠ k.member →
      (s.republish limit [message]).store.zset.lookup member = s.zset.lookup member ∧
        (s.republish limit [message]).store.data.lookup member = s.data.lookup member

section

variable {limit limit' : Nat} {D : Type} {s s' : RetryStore D} {k : RetryKey} {m : Message} {retryAfter : D}

/-! ## UUIDs -/

/-- The hexadecimal digits, most significant first. -/
def UUID.nibbles (u : UUID) (count : Nat) : List Nat :=
  (List.range count).map fun i => (u.int.toNat >>> (4 * (31 - i))) % 16

/-- The number of the first digits. -/
theorem UUID.foldl_nibbles (u : UUID) {i : Nat} (le : i ≤ 32) :
    (u.nibbles i).foldl (fun n d => 16 * n + d) 0 = u.int.toNat >>> (4 * (32 - i)) := by
  induction i with
  | zero =>
    have size := u.int.isLt
    rw [Nat.shiftRight_eq_div_pow, Nat.div_eq_of_lt (by simpa using size)]
    rfl
  | succ i ih =>
    have step : 4 * (32 - i) = 4 * (31 - i) + 4 := by omega
    have place : 32 - (i + 1) = 31 - i := by omega
    have ih := ih (by omega)
    unfold UUID.nibbles at ih ⊢
    rw [List.range_succ, List.map_append, List.foldl_append, ih, List.map_singleton,
      List.foldl_cons, List.foldl_nil, step, place, Nat.shiftRight_add]
    generalize u.int.toNat >>> (4 * (31 - i)) = n
    rw [Nat.shiftRight_eq_div_pow]
    omega

theorem UUID.lt_nibbles (u : UUID) {i : Nat} : ∀ d ∈ u.nibbles i, d < 16 := by
  intro d hd
  obtain ⟨i, -, rfl⟩ := List.mem_map.1 hd
  exact Nat.mod_lt _ (by decide)

theorem UUID.remove_dashes (u : UUID) : PyText.remove (str "-") (str u.toString) =
    (u.nibbles 32).map fun d => PyJson.ofChar (Nat.digitChar d) := by
  have kept : (str u.toString).filter (· ≠ PyJson.ofChar '-') =
      (u.toString.toList.filter (· ≠ '-')).map PyJson.ofChar := by
    rw [str, List.filter_map]
    congr 2
    funext c
    simp only [Function.comp_apply, Ne, PyText.ofChar_inj]
  have dash : str "-" = [PyJson.ofChar '-'] := rfl
  rw [dash, PyText.remove_singleton, kept, u.filter_toString, UUID.nibbles, List.map_map, List.map_map]
  exact List.map_congr_left fun i _ => rfl

theorem UUID.mem_toString {u : UUID} {c : Char} (mem : c ∈ u.toString.toList) :
    c = '-' ∨ ∃ d < 16, c = Nat.digitChar d := by
  by_cases dash : c = '-'
  · exact .inl dash
  · have kept : c ∈ u.toString.toList.filter (· ≠ '-') := List.mem_filter.2 ⟨mem, decide_eq_true dash⟩
    rw [u.filter_toString] at kept
    obtain ⟨i, -, digit⟩ := List.mem_map.1 kept
    exact .inr ⟨_, Nat.mod_lt _ (by decide), digit.symm⟩

theorem UUID.not_mem_toString (u : UUID) {c : Char} (dash : c ≠ '-') (digits : ∀ d < 16, c ≠ Nat.digitChar d) :
    PyJson.ofChar c ∉ str u.toString := by
  intro mem
  obtain ⟨c', there, same⟩ := List.mem_map.1 mem
  rw [PyText.ofChar_inj.1 same] at there
  obtain own | ⟨d, hd, digit⟩ := UUID.mem_toString there
  · exact dash own
  · exact digits d hd digit

/-- `UUID(str(u)) == u`. -/
theorem UUID.ofText_toString (u : UUID) : UUID.ofText (str u.toString) = some u := by
  have urn : PyText.remove (str "urn:") (str u.toString) = str u.toString :=
    PyText.remove_absent (u.not_mem_toString (c := 'u') (by decide) (by decide))
  have uuid : PyText.remove (str "uuid:") (str u.toString) = str u.toString :=
    PyText.remove_absent (u.not_mem_toString (c := 'u') (by decide) (by decide))
  have braces : PyText.strip (str "\x7b\x7d") (str u.toString) = str u.toString := by
    refine PyText.strip_absent fun c hc brace => ?_
    obtain ⟨b, hb, rfl⟩ := List.mem_map.1 brace
    have brace : b = '{' ∨ b = '}' := by simpa using hb
    obtain rfl | rfl := brace
    · exact u.not_mem_toString (by decide) (by decide) hc
    · exact u.not_mem_toString (by decide) (by decide) hc
  have number := PyText.parseInt_digitChar (by simp [UUID.nibbles]) (u.lt_nibbles (i := 32))
  rw [u.foldl_nibbles (Nat.le_refl 32), Nat.sub_self, Nat.mul_zero, Nat.shiftRight_zero] at number
  have below : (u.int.toNat : Int) < 2 ^ 128 := by exact_mod_cast u.int.isLt
  have whole : BitVec.ofInt 128 (u.int.toNat : Int) = u.int := by simp
  have length : ((u.nibbles 32).map fun d => PyJson.ofChar (Nat.digitChar d)).length = 32 := by
    rw [List.length_map, UUID.nibbles, List.length_map, List.length_range]
  rw [UUID.ofText, urn, uuid, braces, u.remove_dashes]
  rw [if_neg (not_not.2 length), number, Option.bind_eq_bind, Option.bind_some,
    if_pos ⟨Int.natCast_nonneg _, below⟩, whole]

/-! ## Messages -/

theorem Message.getField_event : getField m.fields "event_id" = some (.str (str m.eventId.toString)) := rfl

theorem Message.getField_endpoint : getField m.fields "endpoint_id" =
    m.endpointId.map fun endpointId => .str (str endpointId.toString) := by
  obtain ⟨eventId, endpointId, attemptNumber⟩ := m
  cases endpointId <;> cases attemptNumber <;> rfl

theorem Message.getField_attempt : (getField m.fields "attempt_number").getD (.int 0) = .int m.attempt := by
  obtain ⟨eventId, endpointId, attemptNumber⟩ := m
  cases endpointId <;> cases attemptNumber <;> rfl

/-- What `_process_record` reads in the dict. -/
theorem Message.readMessage_value (m : Message) :
    readMessage m.value = .ok ⟨m.eventId, m.attempt, m.endpointId⟩ := by
  have id : ∀ u : UUID, readUuid (.str (str u.toString)) = .ok u := fun u => by
    rw [readUuid, u.ofText_toString]
  have named : ∀ u : UUID, truthy (.str (str u.toString)) = true := fun u => by
    have length : (str u.toString).length = 36 := (List.length_map _).trans u.length_toString
    rw [truthy, Bool.not_eq_true', List.isEmpty_eq_false_iff]
    exact List.ne_nil_of_length_eq_add_one length
  refine readMessage_ok.2 ⟨m.fields, rfl, ⟨_, getField_event, id _⟩, ?_, ?_⟩
  · rw [getField_attempt]
    rfl
  · rw [getField_endpoint]
    cases m.endpointId with
    | none => rfl
    | some endpointId =>
      rw [Option.map_some, Option.getD_some, if_pos (named endpointId)]
      exact ⟨endpointId, id endpointId, rfl⟩

/-- What `run_scheduler` reads in it. -/
theorem Message.readPolled_value {endpointId : UUID} (target : m.endpointId = some endpointId) :
    readPolled m.value = .entry ⟨m.eventId, endpointId, m.attempt⟩ := by
  have ids : readIds m.fields = .ok (m.eventId, endpointId) := by
    simp only [readIds, readRequired, getField_event, getField_endpoint, target, Option.map_some, readUuid,
      UUID.ofText_toString, bind, Except.bind]
  exact readPolled_entry.2 ⟨m.fields, rfl, ids, by rw [getField_attempt]; rfl⟩

theorem joined_str (text : String) : PyJson.Joined (str text) := by
  have scalar : ∀ c : Char, PyJson.isHigh (PyJson.ofChar c) = false := by
    intro c
    have valid := c.valid
    simp only [PyJson.isHigh, Bool.and_eq_false_iff, decide_eq_false_iff_not]
    have point : (PyJson.ofChar c).val = c.val.toNat := rfl
    unfold UInt32.isValidChar Nat.isValidChar at valid
    omega
  unfold str
  induction text.toList with
  | nil => exact .nil
  | cons c t ih =>
    refine List.isChain_cons.2 ⟨fun d _ high => ?_, ih⟩
    rw [scalar] at high
    cases high

theorem Message.distinct (m : Message) : (m.fields.map (·.1)).Nodup := by
  obtain ⟨eventId, endpointId, attemptNumber⟩ := m
  have event : str "event_id" ∉ [str "endpoint_id", str "attempt_number"] := by decide
  have endpoint : str "endpoint_id" ≠ str "attempt_number" := by decide
  cases endpointId <;> cases attemptNumber <;> simp_all [Message.fields]

theorem Message.mem_fields {f : Field} (mem : f ∈ m.fields) : (∃ key, f.1 = str key) ∧
    ((∃ u : UUID, f.2 = .str (str u.toString)) ∨ f.2 = .int m.attempt) := by
  simp only [Message.fields, List.mem_cons, List.mem_append, Option.mem_toList,
    Option.map_eq_some_iff] at mem
  obtain rfl | ⟨endpointId, -, rfl⟩ | ⟨n, attempt, rfl⟩ := mem
  · exact ⟨⟨_, rfl⟩, .inl ⟨_, rfl⟩⟩
  · exact ⟨⟨_, rfl⟩, .inl ⟨_, rfl⟩⟩
  · exact ⟨⟨_, rfl⟩, .inr (by rw [Message.attempt, attempt, Option.getD_some])⟩

theorem Message.plain (m : Message) : PyJson.Plain m.value := by
  refine .obj m.distinct (fun f hf => ?_) fun f hf => ?_
  · obtain ⟨⟨key, named⟩, -⟩ := Message.mem_fields hf
    rw [named]
    exact joined_str key
  · obtain ⟨-, ⟨u, id⟩ | attempt⟩ := Message.mem_fields hf
    · rw [id]
      exact .str (joined_str _)
    · rw [attempt]
      exact .int _

theorem Message.dumps_value (m : Message) (a b : Nat) :
    PyJson.dumps (a + 1) m.value = PyJson.dumps (b + 1) m.value := by
  refine PyJson.dumps_flat (fun f hf => ?_) a b
  obtain ⟨-, ⟨u, id⟩ | attempt⟩ := Message.mem_fields hf
  · rw [id]
    trivial
  · rw [attempt]
    trivial

/-- A message is written if its attempt number is not too long for `str`. -/
theorem Message.writes (m : Message) (limit : Nat)
    (short : (Nat.toDigits 10 m.attempt).length ≤ PyJson.maxDigits) :
    ∃ text, PyJson.dumps (limit + 1) m.value = some text := by
  refine Option.isSome_iff_exists.1 (PyJson.exact_obj m.distinct fun f hf => ?_).2
  obtain ⟨⟨key, named⟩, ⟨u, id⟩ | attempt⟩ := Message.mem_fields hf
  · rw [named, id]
    exact ⟨joined_str key, .str (joined_str _), by simp [PyJson.dumps]⟩
  · rw [named, attempt]
    exact ⟨joined_str key, .int _, by simp [PyJson.dumps, short]⟩

/-- A message that is published is read as what it was. -/
theorem Message.readRecord_publish {a b : Nat} {raw : List UInt8}
    (published : publish (a + 1) m.value = some raw) :
    readRecord (b + 1) raw = some (.ok ⟨m.eventId, m.attempt, m.endpointId⟩) := by
  obtain ⟨text, writes, rfl⟩ := Option.map_eq_some_iff.1 published
  rw [m.dumps_value a b] at writes
  rw [readRecord, deserialize, PyText.decodeUtf8_encodeUtf8, Option.bind_eq_bind, Option.bind_some,
    PyJson.loads_dumps m.plain writes, Except.toOption, Option.map_some, m.readMessage_value]

/-! ## The writers -/

/-- The retry of an attempt below 1024 is stored, and of no other. -/
theorem schedule_retry {e p : UUID} {n : Nat} : (∃ s', s.schedule (limit + 1) ⟨e, p, n⟩
    (Message.retry e p n).value retryAfter = some s') ↔ n < 1024 := by
  have fits : exponentialFits (n : Int) = true ↔ n < 1024 := by
    have size := overflow_size.1
    rw [exponentialFits_iff (k := ⟨e, p, n⟩)]
    constructor
    · intro inRange
      exact Int.ofNat_lt.1 inRange.2
    · intro below
      exact ⟨by dsimp only; omega, Int.ofNat_lt.2 below⟩
  unfold RetryStore.schedule
  constructor
  · rintro ⟨s', stored⟩
    by_contra out
    rw [if_neg (mt fits.1 out)] at stored
    cases stored
  · intro below
    have render := RetryKey.render_inRange (exponentialFits_iff (k := ⟨e, p, n⟩).1 (fits.2 below))
    have short : (Nat.toDigits 10 n).length ≤ PyJson.maxDigits := by
      rw [Nat.length_toDigits_le_iff (by decide) (by decide)]
      exact below.trans_le (overflow_size.1.trans overflow_size.2)
    obtain ⟨text, writes⟩ := (Message.retry e p n).writes limit short
    rw [if_pos (fits.2 below), render, writes]
    exact ⟨_, rfl⟩

theorem republishes {message : Value} {text : Text} (entry : readPolled message = .entry k)
    (render : k.render = some k.member) (writes : PyJson.dumps limit message = some text) :
    Republishes D limit message k := by
  intro s
  have run : s.republish limit [message] = ⟨s.cancelScript k.member, [.published text, .cancelled k], true⟩ := by
    simp only [RetryStore.republish, entry, writes, render]
  rw [run]
  refine ⟨text, writes, rfl, rfl, ?_, ?_, fun k' other => ?_, fun member other => ⟨?_, ?_⟩⟩
  · exact AList.lookup_eq_none.1 (AList.lookup_erase _ _)
  · exact AList.lookup_eq_none.1 (AList.lookup_erase _ _)
  · exact fun same => other (RetryKey.member_injective same)
  · exact AList.lookup_erase_ne other
  · exact AList.lookup_erase_ne other

/-- What the writers of the pending topic publish and store is read by its readers as what they meant. -/
theorem pending_topic_agrees (D : Type) (a b c : Nat) (e p : UUID) (n : Nat) :
    (∃ raw, publish (a + 1) (Message.fanOut e).value = some raw ∧
      readRecord (b + 1) raw = some (.ok ⟨e, 0, none⟩)) ∧
    ∀ (s s' : RetryStore D) (retryAfter : D),
      s.schedule (a + 1) ⟨e, p, n⟩ (Message.retry e p n).value retryAfter = some s' →
      ∃ payload v raw,
        s'.zset.lookup (RetryKey.member ⟨e, p, n⟩) = some retryAfter ∧
        s'.data.lookup (RetryKey.member ⟨e, p, n⟩) = some payload ∧
        PyJson.loads (b + 1) payload = .ok v ∧
        publish (b + 1) v = some raw ∧
        readRecord (c + 1) raw = some (.ok ⟨e, n, some p⟩) ∧
        readPolled v = .entry ⟨e, p, n⟩ ∧ Republishes D (b + 1) v ⟨e, p, n⟩ := by
  constructor
  · obtain ⟨text, writes⟩ := (Message.fanOut e).writes a (show (Nat.toDigits 10 0).length ≤ _ by decide)
    have published : publish (a + 1) (Message.fanOut e).value = some (PyText.encodeUtf8 text) := by
      rw [publish, writes, Option.map_some]
    exact ⟨_, published, Message.readRecord_publish published⟩
  · intro s s' retryAfter stored
    have entry := (Message.retry e p n).readPolled_value rfl
    unfold RetryStore.schedule at stored
    split at stored
    · split at stored
      · rename_i member payload render writes
        obtain rfl := Option.some.inj stored
        obtain ⟨-, own⟩ := Option.ite_none_right_eq_some.1 render
        obtain rfl := Option.some.inj own
        rw [Message.dumps_value _ a b] at writes
        have published : publish (b + 1) (Message.retry e p n).value = some (PyText.encodeUtf8 payload) := by
          rw [publish, writes, Option.map_some]
        exact ⟨payload, _, _, AList.lookup_insert _, AList.lookup_insert _,
          PyJson.loads_dumps (Message.plain _) writes, published, Message.readRecord_publish published, entry,
          republishes entry render writes⟩
      · cases stored
    · cases stored

end

/-- The first retry of a delivery. -/
theorem first_retry_agrees : ∃ s' payload v raw,
    RetryStore.empty.schedule 1 ⟨⟨1⟩, ⟨2⟩, 1⟩ (Message.retry ⟨1⟩ ⟨2⟩ 1).value (2 : Nat) = some s' ∧
      s'.data.lookup (RetryKey.member ⟨⟨1⟩, ⟨2⟩, 1⟩) = some payload ∧ PyJson.loads 1 payload = .ok v ∧
      publish 1 v = some raw ∧ readRecord 1 raw = some (.ok ⟨⟨1⟩, 1, some ⟨2⟩⟩) ∧
      Republishes Nat 1 v ⟨⟨1⟩, ⟨2⟩, 1⟩ := by
  obtain ⟨s', stored⟩ := schedule_retry.2 (by decide : 1 < 1024)
  obtain ⟨payload, v, raw, -, data, loads, published, read, -, republishes⟩ :=
    (pending_topic_agrees Nat 0 0 0 ⟨1⟩ ⟨2⟩ 1).2 _ s' 2 stored
  exact ⟨s', payload, v, raw, stored, data, loads, published, read, republishes⟩

end HookRelay
