import NetFT.Types

/-! Sensor discovery (`discovery.cpp`): the options, the collection of the HTTP response and what is
made of it. What libcurl does is the environment's: whether its set-up succeeds, the write
callbacks it makes and how the transfer ends. -/

namespace NetFT.Discovery

/-- `std::numeric_limits<std::size_t>::max()`. -/
def sizeMax : Nat := 2 ^ 64 - 1

def kMaximumResponseBytes : Nat := 65536

/-- Subtraction of `size_t` values, which wraps. -/
def subSize (a b : Nat) : Nat := (a + (sizeMax + 1) - b) % (sizeMax + 1)

/-! ## The write callback -/

structure ResponseBuffer where
  body : List UInt8 := []
  tooLarge : Bool := false
  writeFailed : Bool := false
  deriving DecidableEq, Repr

/-- The arguments of a write callback: `count` items of `size` bytes. -/
structure Chunk where
  data : List UInt8
  size : Nat
  count : Nat
  size_le : size ≤ sizeMax
  count_le : count ≤ sizeMax
  length_eq : data.length = size * count

/-- The buffer after the callback and the value it returns; `throws` tells whether `append`
throws. -/
def appendResponse (response : ResponseBuffer) (chunk : Chunk) (throws : Bool) :
    ResponseBuffer × Nat :=
  if chunk.size ≠ 0 ∧ chunk.count > sizeMax / chunk.size then
    ({ response with tooLarge := true }, 0)
  else
    let byteCount := chunk.size * chunk.count % (sizeMax + 1)
    if byteCount > subSize kMaximumResponseBytes response.body.length then
      ({ response with tooLarge := true }, 0)
    else if throws then
      ({ response with writeFailed := true }, 0)
    else
      ({ response with body := response.body ++ chunk.data.take byteCount }, byteCount)

/-- The write callbacks of a transfer, until one of them does not take what it is given. -/
def collect (response : ResponseBuffer) : List (Chunk × Bool) → ResponseBuffer
  | [] => response
  | (chunk, throws) :: chunks =>
    let (response', taken) := appendResponse response chunk throws
    if taken = chunk.size * chunk.count then collect response' chunks else response'

/-! ## `discover_sensor` -/

structure DiscoveryOptions where
  sensorHost : List UInt8
  httpPort : Int
  connectTimeout : Rat
  totalTimeout : Rat

/-- The six characters that count as blank. -/
def isBlank (character : UInt8) : Bool :=
  character = 0x20 || character = 0x09 || character = 0x0a || character = 0x0d ||
    character = 0x0c || character = 0x0b

/-- `std::numeric_limits<long>::max()`. -/
def longMax : Nat := 2 ^ 63 - 1

def timeoutMessage (name : String) : String := name ++ " must be finite, positive, and representable"

def timeoutMilliseconds (timeout : Rat) (name : String) : Except String Nat :=
  if timeout ≤ 0 then .error (timeoutMessage name)
  else if (timeout * 1000).ceil > longMax then .error (timeoutMessage name)
  else .ok (timeout * 1000).ceil.toNat

def validateOptions (options : DiscoveryOptions) : Except String Unit := do
  if options.sensorHost.all isBlank then
    throw "sensor_host must not be blank"
  if options.httpPort < 1 ∨ options.httpPort > 65535 then
    throw "http_port must be in the range 1..65535"
  let _ ← timeoutMilliseconds options.connectTimeout "connect_timeout"
  let _ ← timeoutMilliseconds options.totalTimeout "total_timeout"

/-- The environment's part in a discovery: the message of the `DiscoveryError` with which the set-up
of libcurl fails, if it does, the write callbacks, the error of the transfer and the HTTP
status. -/
structure Transfer where
  setupError : Option String := none
  chunks : List (Chunk × Bool) := []
  transferError : Option String := none
  status : Option Int := some 200

/-- `discover_sensor`, with the parser of the response body; the error is the message of the
`DiscoveryError`. -/
def discoverSensor {D : Type} (parse : List UInt8 → Except String (SensorConfiguration D))
    (options : DiscoveryOptions) (transfer : Transfer) : Except String (SensorConfiguration D) := do
  validateOptions options
  if let some message := transfer.setupError then
    throw message
  let response := collect {} transfer.chunks
  if response.tooLarge then
    throw "sensor configuration response exceeds 65536 bytes"
  if response.writeFailed then
    throw "failed to store sensor configuration response"
  if let some error := transfer.transferError then
    throw ("sensor configuration request failed: " ++ error)
  match transfer.status with
  | none => throw "failed to inspect sensor configuration response"
  | some status =>
    if status ≠ 200 then
      throw ("sensor configuration request returned HTTP " ++ toString status)
    parse response.body

/-! ## The bound on the body -/

theorem subSize_of_le {a b : Nat} (h : b ≤ a) (ha : a ≤ sizeMax) : subSize a b = a - b := by
  unfold subSize
  rw [show a + (sizeMax + 1) - b = a - b + (sizeMax + 1) by omega, Nat.add_mod_right]
  exact Nat.mod_eq_of_lt (by omega)

theorem Chunk.overflow_iff (chunk : Chunk) :
    chunk.size ≠ 0 ∧ chunk.count > sizeMax / chunk.size ↔ sizeMax < chunk.size * chunk.count := by
  rcases Nat.eq_zero_or_pos chunk.size with hzero | hpos
  · simp [hzero]
  · rw [gt_iff_lt, Nat.div_lt_iff_lt_mul hpos, Nat.mul_comm]
    constructor
    · exact fun h => h.2
    · exact fun h => ⟨by omega, h⟩

/-- One write callback on a body within the bound: it takes the chunk whole, or it refuses it. -/
theorem appendResponse_spec {response : ResponseBuffer}
    (h : response.body.length ≤ kMaximumResponseBytes) (chunk : Chunk) (throws : Bool) :
    chunk.data.length ≤ kMaximumResponseBytes - response.body.length ∧
        (throws = false → appendResponse response chunk throws =
          ({ response with body := response.body ++ chunk.data }, chunk.size * chunk.count)) ∧
        (throws = true → appendResponse response chunk throws =
          ({ response with writeFailed := true }, 0)) ∨
      kMaximumResponseBytes - response.body.length < chunk.data.length ∧
        appendResponse response chunk throws = ({ response with tooLarge := true }, 0) := by
  have hmax : kMaximumResponseBytes ≤ sizeMax := by decide
  have hlen := chunk.length_eq
  unfold appendResponse
  rw [subSize_of_le h hmax]
  by_cases hover : sizeMax < chunk.size * chunk.count
  · rw [if_pos (chunk.overflow_iff.mpr hover)]
    exact .inr ⟨by omega, rfl⟩
  · rw [if_neg (fun h => hover (chunk.overflow_iff.mp h))]
    have hmod : chunk.size * chunk.count % (sizeMax + 1) = chunk.size * chunk.count :=
      Nat.mod_eq_of_lt (by omega)
    dsimp only
    rw [hmod]
    by_cases hlarge : chunk.size * chunk.count > kMaximumResponseBytes - response.body.length
    · rw [if_pos hlarge]
      exact .inr ⟨by omega, rfl⟩
    · rw [if_neg hlarge, ← hlen, List.take_length]
      refine .inl ⟨by omega, fun ht => ?_, fun ht => ?_⟩ <;> simp [ht]

/-- The body stays within the bound, whatever `append` does. -/
theorem collect_bounded {response : ResponseBuffer}
    (h : response.body.length ≤ kMaximumResponseBytes) (chunks : List (Chunk × Bool)) :
    (collect response chunks).body.length ≤ kMaximumResponseBytes := by
  induction chunks generalizing response with
  | nil => exact h
  | cons c chunks ih =>
    obtain ⟨chunk, throws⟩ := c
    simp only [collect]
    rcases appendResponse_spec h chunk throws with ⟨hfits, hok, hthrows⟩ | ⟨-, heq⟩
    · cases throws with
      | false =>
        have hbody : (response.body ++ chunk.data).length ≤ kMaximumResponseBytes := by
          rw [List.length_append]
          omega
        rw [hok rfl]
        simpa using ih hbody
      | true =>
        rw [hthrows rfl]
        dsimp only
        split
        · exact ih h
        · exact h
    · rw [heq]
      dsimp only
      split
      · exact ih h
      · exact h

/-- The body that the chunks make up. -/
def bodyOf (chunks : List (Chunk × Bool)) : List UInt8 := chunks.flatMap fun c => c.1.data

/-- Where no `append` throws, the chunks are collected whole, or the response is too large. -/
theorem collect_spec {response : ResponseBuffer}
    (h : response.body.length ≤ kMaximumResponseBytes) {chunks : List (Chunk × Bool)}
    (hok : ∀ c ∈ chunks, c.2 = false) :
    response.body.length + (bodyOf chunks).length ≤ kMaximumResponseBytes ∧
        collect response chunks = { response with body := response.body ++ bodyOf chunks } ∨
      kMaximumResponseBytes < response.body.length + (bodyOf chunks).length ∧
        (collect response chunks).tooLarge = true := by
  induction chunks generalizing response with
  | nil => exact .inl ⟨by simpa [bodyOf] using h, by simp [collect, bodyOf]⟩
  | cons c chunks ih =>
    obtain ⟨chunk, throws⟩ := c
    obtain rfl : throws = false := hok _ (List.mem_cons_self ..)
    have hbody : bodyOf ((chunk, false) :: chunks) = chunk.data ++ bodyOf chunks := rfl
    rw [hbody, List.length_append]
    simp only [collect]
    rcases appendResponse_spec h chunk false with ⟨hfits, htaken, -⟩ | ⟨hlarge, heq⟩
    · have hnext : (response.body ++ chunk.data).length ≤ kMaximumResponseBytes := by
        rw [List.length_append]
        omega
      rw [htaken rfl]
      simp only [if_true]
      rcases @ih { response with body := response.body ++ chunk.data } hnext
        (fun c hc => hok c (List.mem_cons_of_mem _ hc)) with ⟨hle, heq⟩ | ⟨hgt, htoo⟩
      · refine .inl ⟨?_, by rw [heq, List.append_assoc]⟩
        simp only [List.length_append] at hle
        omega
      · refine .inr ⟨?_, htoo⟩
        simp only [List.length_append] at hgt
        omega
    · refine .inr ⟨by omega, ?_⟩
      rw [heq]
      have hne : 0 ≠ chunk.size * chunk.count := by
        have := chunk.length_eq
        omega
      simp [hne]

/-- A response that is too large is not parsed. -/
theorem discoverSensor_tooLarge {D : Type} {options : DiscoveryOptions} {transfer : Transfer}
    (h : (collect {} transfer.chunks).tooLarge = true) :
    ∃ message, ∀ parse : List UInt8 → Except String (SensorConfiguration D),
      discoverSensor parse options transfer = .error message := by
  unfold discoverSensor
  cases validateOptions options with
  | error message => exact ⟨message, fun _ => rfl⟩
  | ok =>
    cases transfer.setupError with
    | some message => exact ⟨message, fun _ => rfl⟩
    | none =>
      refine ⟨"sensor configuration response exceeds 65536 bytes", fun _ => ?_⟩
      simp only [h, if_true]
      rfl

/-- However a body is cut into chunks, where no `append` throws it is collected whole if it is
within the bound, and otherwise the response is too large and `discover_sensor` fails without
parsing it. At every step of every transfer the body is within the bound, so that the subtraction
of the callback does not wrap. -/
theorem body_collection {D : Type} {body : List UInt8} {chunks : List (Chunk × Bool)}
    (hcut : bodyOf chunks = body) (hok : ∀ c ∈ chunks, c.2 = false) :
    (body.length ≤ kMaximumResponseBytes → collect {} chunks = { body := body }) ∧
    (kMaximumResponseBytes < body.length →
      (collect {} chunks).tooLarge = true ∧
      ∀ (options : DiscoveryOptions) (transfer : Transfer), transfer.chunks = chunks →
        ∃ message, ∀ parse : List UInt8 → Except String (SensorConfiguration D),
          discoverSensor parse options transfer = .error message) ∧
    ∀ steps : List (Chunk × Bool),
      (collect {} steps).body.length ≤ kMaximumResponseBytes ∧
      subSize kMaximumResponseBytes (collect {} steps).body.length =
        kMaximumResponseBytes - (collect {} steps).body.length := by
  subst hcut
  have hempty : ({} : ResponseBuffer).body.length ≤ kMaximumResponseBytes := Nat.zero_le _
  have hspec := collect_spec hempty hok
  have hzero : ({} : ResponseBuffer).body.length = 0 := rfl
  refine ⟨fun hle => ?_, fun hgt => ?_, fun steps => ?_⟩
  · rcases hspec with ⟨-, heq⟩ | ⟨hgt, -⟩
    · exact heq
    · omega
  · rcases hspec with ⟨hle, -⟩ | ⟨-, htoo⟩
    · omega
    · exact ⟨htoo, fun options transfer heq => discoverSensor_tooLarge (by rw [heq]; exact htoo)⟩
  · have hbound := collect_bounded hempty steps
    exact ⟨hbound, subSize_of_le hbound (by decide)⟩

/-- Two bytes in two chunks, one of them empty. -/
theorem body_collection_chunks :
    ∃ chunks : List (Chunk × Bool), chunks.length = 2 ∧
      collect {} chunks = { body := [0x61, 0x62] } :=
  ⟨[(⟨[], 0, 5, by decide, by decide, rfl⟩, false),
      (⟨[0x61, 0x62], 1, 2, by decide, by decide, rfl⟩, false)], rfl,
    (body_collection (D := Rat) rfl (by simp)).1 (by decide)⟩

end NetFT.Discovery
