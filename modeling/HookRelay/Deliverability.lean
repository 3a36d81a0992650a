import HookRelay.Lib.PyJsonCompact
import HookRelay.ResponseIsolation
import HookRelay.TopicMessages

/-!
# From an accepted event to its request

What `_deliver_to_endpoint` sends: the payload as compact JSON, its signature, and the headers with the type
of the event. The payload and the signature can always be written. A header value is a string that httpx
encodes, and where it raises, the exception is taken for a failure of the endpoint.
-/

namespace HookRelay

/-- What is handed to `http_client.post`. -/
structure HttpRequest where
  url : String
  content : List UInt8
  headers : List (String × String)

/-- The code outside: the header values httpx takes, what the request is answered with, and the MAC. -/
structure Outside where
  acceptsHeader : String → Bool
  send : HttpRequest → HttpResult
  hmacSha256 : List UInt8 → List UInt8 → List UInt8

/-! ## Header values -/

/-- ASCII that is no control character. -/
def Printable (c : Char) : Prop := 0x20 ≤ c.toNat ∧ c.toNat ≤ 0x7e

instance (c : Char) : Decidable (Printable c) := inferInstanceAs (Decidable (_ ∧ _))

/-- Printable ASCII with no space at either end. The empty string is one. -/
structure HeaderValue (v : String) : Prop where
  printable : ∀ c ∈ v.toList, Printable c
  first : v.toList.head? ≠ some ' '
  last : v.toList.getLast? ≠ some ' '

instance (v : String) : Decidable (HeaderValue v) :=
  decidable_of_iff ((v.toList.all fun c => decide (Printable c)) = true ∧ v.toList.head? ≠ some ' ' ∧
      v.toList.getLast? ≠ some ' ')
    ⟨fun h => ⟨fun c hc => of_decide_eq_true (List.all_eq_true.1 h.1 c hc), h.2.1, h.2.2⟩,
      fun h => ⟨List.all_eq_true.2 fun c hc => decide_eq_true (h.printable c hc), h.first, h.last⟩⟩

/-- What httpx does with a header value. It encodes it as ASCII, and it takes neither control characters nor a
space at an end. -/
structure Outside.HeaderLaws (o : Outside) : Prop where
  ascii : ∀ v c, c ∈ v.toList → 0x80 ≤ c.toNat → o.acceptsHeader v = false
  control : ∀ v c, c ∈ v.toList → c.toNat < 0x20 ∨ c.toNat = 0x7f → o.acceptsHeader v = false
  ends : ∀ v, v.toList.head? = some ' ' ∨ v.toList.getLast? = some ' ' → o.acceptsHeader v = false
  takes : ∀ v, (∀ c ∈ v.toList, Printable c) → v.toList.head? ≠ some ' ' → v.toList.getLast? ≠ some ' ' →
    o.acceptsHeader v = true

/-! ## The request -/

/-- `json.dumps(event.payload, separators=(",", ":")).encode()`. -/
def payloadBytes {limit : Nat} (payload : JsonMessage limit) : Option (List UInt8) :=
  (PyJson.dumpsCompact limit payload.value).map PyText.encodeUtf8

/-- `bytes.hex()`. -/
def hexdigest (bytes : List UInt8) : String :=
  String.ofList (bytes.flatMap fun b => [Nat.digitChar (b.toNat / 16), Nat.digitChar (b.toNat % 16)])

/-- `_hmac_signature`. -/
def hmacSignature (o : Outside) (secret : String) (content : List UInt8) : String :=
  hexdigest (o.hmacSha256 (PyText.encodeUtf8 secret.toList) content)

/-- `settings.signature_header`. -/
def signatureHeader : String := "X-HookRelay-Signature"

/-- The arguments of the POST. -/
def deliveryRequest (o : Outside) (event : Event) (endpoint : Endpoint) (content : List UInt8) : HttpRequest where
  url := endpoint.url
  content := content
  headers := [("Content-Type", "application/json"),
    (signatureHeader, "sha256=" ++ hmacSignature o endpoint.secret content),
    ("X-HookRelay-Event-ID", event.id.toString), ("X-HookRelay-Event-Type", event.eventType)]

/-- The request that is sent, if every header value can be encoded. -/
def buildRequest (o : Outside) (request : HttpRequest) : Option HttpRequest :=
  if request.headers.all fun h => o.acceptsHeader h.2 then some request else none

/-- `await http_client.post(…)`. -/
def awaitPost (o : Outside) : Option HttpRequest → HttpResult
  | some request => o.send request
  | none => .error

/-- `_deliver_to_endpoint`, with the request that it issues. -/
def deliverPayload (cfg : Settings) (o : Outside) (st : Store) (r : Record Message) (d : Delivery) {limit : Nat}
    (payload : JsonMessage limit) (dlqId : UUID) (retryAfter : Nat) : Option (Store × Option HttpRequest) :=
  if st.db.hasSuccess d.event.id d.endpoint.id then some (st, none)
  else do
    let content ← payloadBytes payload
    let request := buildRequest o (deliveryRequest o d.event d.endpoint content)
    let st ← deliverToEndpoint cfg st r ⟨awaitPost o request, dlqId, retryAfter⟩ d
    some (st, request)

/-- The delivery issues its request and records a success for its attempt. -/
def Deliverable (cfg : Settings) (o : Outside) (st : Store) (r : Record Message) (d : Delivery) {limit : Nat}
    (payload : JsonMessage limit) (dlqId : UUID) (retryAfter : Nat) : Prop :=
  ∃ st' request, deliverPayload cfg o st r d payload dlqId retryAfter = some (st', some request) ∧
    ∃ a ∈ st'.db.attempts, a.key = (d.event.id, d.endpoint.id, d.attemptNumber) ∧ a.status = .success

section

variable {o : Outside} {cfg : Settings} {st st' : Store} {r : Record Message} {d : Delivery} {limit : Nat}
  {payload : JsonMessage limit} {dlqId : UUID} {retryAfter : Nat} {event : Event} {endpoint : Endpoint}
  {content : List UInt8}

/-- The payload of a stored event can be written. -/
theorem payloadBytes_some (payload : JsonMessage limit) : ∃ content, payloadBytes payload = some content := by
  obtain ⟨t, denoted⟩ := payload.denoted
  obtain ⟨u, writes, -⟩ := PyJson.loads_exact denoted
  have written : (PyJson.dumps limit payload.value).isSome := by
    rw [JsonMessage.value, writes]
    rfl
  obtain ⟨text, compact⟩ := Option.isSome_iff_exists.1 (PyJson.dumpsCompact_isSome written)
  exact ⟨_, by rw [payloadBytes, compact, Option.map_some]⟩

theorem Outside.HeaderLaws.acceptsHeader_iff (laws : o.HeaderLaws) {v : String} :
    o.acceptsHeader v = true ↔ HeaderValue v := by
  constructor
  · intro accepted
    have accepts : ¬ o.acceptsHeader v = false := by rw [accepted]; decide
    refine ⟨fun c hc => ⟨?_, ?_⟩, fun space => accepts (laws.ends v (.inl space)),
      fun space => accepts (laws.ends v (.inr space))⟩
    · by_contra low
      exact accepts (laws.control v c hc (.inl (Nat.not_le.1 low)))
    · by_contra high
      obtain del | more : c.toNat = 0x7f ∨ 0x80 ≤ c.toNat := by omega
      · exact accepts (laws.control v c hc (.inr del))
      · exact accepts (laws.ascii v c hc more)
  · intro value
    exact laws.takes v value.printable value.first value.last

/-- A character of printable ASCII that is no space. -/
def Visible (c : Char) : Prop := 0x21 ≤ c.toNat ∧ c.toNat ≤ 0x7e

instance (c : Char) : Decidable (Visible c) := inferInstanceAs (Decidable (_ ∧ _))

theorem Visible.of_all {v : String} (h : (v.toList.all fun c => decide (Visible c)) = true) :
    ∀ c ∈ v.toList, Visible c :=
  fun c hc => of_decide_eq_true (List.all_eq_true.1 h c hc)

theorem Visible.headerValue {v : String} (visible : ∀ c ∈ v.toList, Visible c) : HeaderValue v := by
  have space : ' ' ∉ v.toList := fun mem => absurd (visible ' ' mem) (by decide)
  exact ⟨fun c hc => ⟨Nat.le_of_succ_le (visible c hc).1, (visible c hc).2⟩,
    fun first => space (List.mem_of_head? first), fun last => space (List.mem_of_getLast? last)⟩

theorem visible_digitChar : ∀ d < 16, Visible (Nat.digitChar d) := by decide

theorem visible_hexdigest (bytes : List UInt8) : ∀ c ∈ (hexdigest bytes).toList, Visible c := by
  intro c digest
  rw [hexdigest, String.toList_ofList, List.mem_flatMap] at digest
  obtain ⟨b, -, hc⟩ := digest
  have high : b.toNat / 16 < 16 := Nat.div_lt_of_lt_mul b.toNat_lt
  have low : b.toNat % 16 < 16 := Nat.mod_lt _ (by decide)
  obtain rfl | hc := List.mem_cons.1 hc
  · exact visible_digitChar _ high
  · obtain rfl := List.mem_singleton.1 hc
    exact visible_digitChar _ low

/-- All of the headers but the type are visible ASCII. -/
theorem buildRequest_eq (laws : o.HeaderLaws) :
    buildRequest o (deliveryRequest o event endpoint content) =
      if HeaderValue event.eventType then some (deliveryRequest o event endpoint content) else none := by
  have visible : ∀ v : String, (∀ c ∈ v.toList, Visible c) → o.acceptsHeader v = true := fun v visible =>
    laws.acceptsHeader_iff.2 (Visible.headerValue visible)
  have json : o.acceptsHeader "application/json" = true := visible _ (Visible.of_all (by decide))
  have id : o.acceptsHeader event.id.toString = true := visible _ fun c hc => by
    obtain rfl | ⟨d, hd, rfl⟩ := UUID.mem_toString hc
    · decide
    · exact visible_digitChar d hd
  have signature : o.acceptsHeader ("sha256=" ++ hmacSignature o endpoint.secret content) = true := by
    refine visible _ fun c hc => ?_
    rw [String.toList_append, List.mem_append] at hc
    obtain scheme | digest := hc
    · have word : ∀ c ∈ "sha256=".toList, Visible c := Visible.of_all (by decide)
      exact word c scheme
    · exact visible_hexdigest _ c digest
  have headers : (deliveryRequest o event endpoint content).headers.all (fun h => o.acceptsHeader h.2) =
      o.acceptsHeader event.eventType := by
    simp [deliveryRequest, json, id, signature]
  rw [buildRequest, headers]
  exact if_congr laws.acceptsHeader_iff rfl rfl

theorem Deliverable.accepted (laws : o.HeaderLaws)
    (h : Deliverable cfg o st r d payload dlqId retryAfter) :
    HeaderValue d.event.eventType ∧ st.db.hasSuccess d.event.id d.endpoint.id = false ∧
      ∃ content st', payloadBytes payload = some content ∧
        deliverToEndpoint cfg st r ⟨o.send (deliveryRequest o d.event d.endpoint content), dlqId, retryAfter⟩ d =
          some st' ∧
        ∃ a ∈ st'.db.attempts, a.key = (d.event.id, d.endpoint.id, d.attemptNumber) ∧ a.status = .success := by
  obtain ⟨st', request, delivered, recorded⟩ := h
  unfold deliverPayload at delivered
  split at delivered
  · cases Option.some.inj delivered
  · rename_i new
    obtain ⟨content, written, delivered⟩ := Option.bind_eq_some_iff.1 delivered
    obtain ⟨st₁, run, same⟩ := Option.bind_eq_some_iff.1 delivered
    obtain ⟨rfl, built⟩ := Prod.mk.inj (Option.some.inj same)
    have accepted := built
    rw [buildRequest_eq laws, Option.ite_none_right_eq_some] at accepted
    rw [buildRequest_eq laws, if_pos accepted.1] at run
    exact ⟨accepted.1, by simpa using new, content, _, written, run, recorded⟩

end

/-- An endpoint that answers every request with an empty 200, and the signature of `{}` under the sample's secret. -/
def asciiClient : Outside where
  acceptsHeader v := decide (HeaderValue v)
  send _ := .response 200 []
  hmacSha256 _ _ :=
    [0x77, 0x32, 0x59, 0x02, 0xca, 0xca, 0x81, 0x2d, 0xc2, 0x59, 0x73, 0x3a, 0xac, 0xd0, 0x46, 0xb7,
     0x38, 0x17, 0x37, 0x2c, 0x77, 0x7b, 0x8d, 0x95, 0xb4, 0x02, 0x64, 0x74, 0x74, 0x51, 0x6e, 0x13]

theorem asciiClient_laws : asciiClient.HeaderLaws where
  ascii v c hc high := decide_eq_false fun value => by
    have := (value.printable c hc).2
    omega
  control v c hc control := decide_eq_false fun value => by
    obtain ⟨low, high⟩ := value.printable c hc
    omega
  ends v space := decide_eq_false fun value => space.elim value.first value.last
  takes v printable first last := decide_eq_true ⟨printable, first, last⟩

/-- It takes a space between two words, and none before or behind one. -/
example : asciiClient.acceptsHeader "order paid" = true ∧ asciiClient.acceptsHeader "order " = false ∧
    asciiClient.acceptsHeader " x" = false := by decide

/-- The first attempt for an endpoint. -/
def firstAttempt (event : Event) (endpoint : Endpoint) : Delivery :=
  { event, attemptNumber := 0, endpoint, stage := .checking, rest := [] }

/-- An event of type "é", and an endpoint that subscribes to it. -/
def accentTables : Tables where
  endpoints := [{ sampleEndpoint.endpoint (.ofNat 1) with eventTypes := ["é"] }]
  events := [{ sampleEvent.event (.ofNat 2) with eventType := "é" }]
  issued := [.ofNat 1, .ofNat 2]

theorem accentTables_valid : accentTables.Valid := by
  constructor <;> decide

def accentStore : Store := { initial.store with db := ⟨accentTables, accentTables_valid⟩ }

end HookRelay
