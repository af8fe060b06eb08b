import NetFT.Detail.Protocol

/-! The two ends of the RDT wire. `encodeRequest` is the client's side of a request and
`decodeCommand` the sensor's; `makeRecord` is the sensor's side of a record, for which
`NetFT.Detail.Protocol` has the client's. The sensor's side is that of the fake sensor of the tests
(`fake_sensor.cpp`). -/

namespace NetFT.Detail

/-- The underlying value of the enumeration. -/
def Command.value : Command → UInt16
  | .stopStreaming => 0x0000
  | .startRealtime => 0x0002
  | .startBuffered => 0x0003
  | .resetConditionLatch => 0x0041
  | .setSoftwareBias => 0x0042

def encodeRequest (command : Command) (count : UInt32) : List UInt8 :=
  let value := command.value
  [0x12, 0x34, (value >>> 8).toUInt8, value.toUInt8,
    (count >>> 24).toUInt8, (count >>> 16).toUInt8, (count >>> 8).toUInt8, count.toUInt8]

/-- The value of the command, which need not be one of the enumeration's. -/
def decodeCommand (data : List UInt8) : Option UInt16 :=
  if data.length ≠ 8 ∨ byteAt data 0 ≠ 0x12 ∨ byteAt data 1 ≠ 0x34 then none
  else some (((byteAt data 2).toUInt16 <<< 8) ||| (byteAt data 3).toUInt16)

def putU32 (bytes : List UInt8) (offset : Nat) (value : UInt32) : List UInt8 :=
  (List.range 4).foldl
    (fun bytes index => bytes.set (offset + index) (value >>> (24 - 8 * index).toUInt32).toUInt8)
    bytes

def makeRecord (rdtSequence status ftSequence : UInt32) (axes : List Int32) : List UInt8 :=
  let data := List.replicate 36 0
  let data := putU32 data 0 rdtSequence
  let data := putU32 data 4 ftSequence
  let data := putU32 data 8 status
  (List.range 6).foldl
    (fun data index => putU32 data (12 + 4 * index) (axes.getD index 0).toUInt32) data

/-- The record on the wire. -/
def RawRecord.encode (r : RawRecord) : List UInt8 :=
  makeRecord r.rdtSequence r.status r.ftSequence [r.fx, r.fy, r.fz, r.tx, r.ty, r.tz]

/-! ## Words -/

/-- The four bytes of a word, most significant first. -/
def wordBytes (value : UInt32) : List UInt8 :=
  [(value >>> 24).toUInt8, (value >>> 16).toUInt8, (value >>> 8).toUInt8, value.toUInt8]

theorem shiftLeft_or {x y : Nat} (k : Nat) (h : y < 2 ^ k) : x <<< k ||| y = x * 2 ^ k + y := by
  rw [← Nat.shiftLeft_add_eq_or_of_lt h, Nat.shiftLeft_eq]

/-- The word that four bytes make up. -/
theorem toNat_readU32 (a b c d : UInt8) (rest : List UInt8) :
    (readU32 (a :: b :: c :: d :: rest)).toNat =
      a.toNat * 2 ^ 24 + b.toNat * 2 ^ 16 + c.toNat * 2 ^ 8 + d.toNat := by
  have ha := a.toNat_lt
  have hb := b.toNat_lt
  have hc := c.toNat_lt
  have hd := d.toNat_lt
  have hshift : ∀ (x : UInt8) (k : Nat), k ≤ 24 → x.toNat <<< k < 4294967296 := fun x k hk => by
    have hx := x.toNat_lt
    have hpow : 2 ^ k ≤ 2 ^ 24 := Nat.pow_le_pow_right (by decide) hk
    rw [Nat.shiftLeft_eq]
    calc x.toNat * 2 ^ k ≤ 255 * 2 ^ 24 := Nat.mul_le_mul (by omega) hpow
      _ < 4294967296 := by decide
  simp only [readU32, byteAt, UInt32.toNat_or, UInt32.toNat_shiftLeft, UInt8.toNat_toUInt32]
  simp only [List.getD_cons_zero, List.getD_cons_succ, UInt32.reduceToNat, Nat.reduceMod,
    Nat.reducePow, Nat.mod_eq_of_lt (hshift a 24 (by decide)),
    Nat.mod_eq_of_lt (hshift b 16 (by decide)), Nat.mod_eq_of_lt (hshift c 8 (by decide))]
  rw [Nat.or_assoc, Nat.or_assoc, shiftLeft_or 8 (by omega), shiftLeft_or 16 (by omega),
    shiftLeft_or 24 (by omega)]
  omega

theorem readU32_wordBytes (value : UInt32) (rest : List UInt8) :
    readU32 (wordBytes value ++ rest) = value := by
  have hvalue := value.toNat_lt
  apply UInt32.toNat_inj.mp
  simp only [wordBytes, List.cons_append, List.nil_append, toNat_readU32]
  simp [Nat.shiftRight_eq_div_pow]
  omega

theorem wordBytes_readU32 {data : List UInt8} (h : 4 ≤ data.length) :
    wordBytes (readU32 data) ++ data.drop 4 = data := by
  obtain _ | ⟨a, _ | ⟨b, _ | ⟨c, _ | ⟨d, rest⟩⟩⟩⟩ := data
  case cons.cons.cons.cons =>
    have ha := a.toNat_lt
    have hb := b.toNat_lt
    have hc := c.toNat_lt
    have hd := d.toNat_lt
    have hword := toNat_readU32 a b c d rest
    simp only [wordBytes, List.cons_append, List.nil_append, List.drop_succ_cons, List.drop_zero,
      List.cons.injEq, and_true]
    refine ⟨?_, ?_, ?_, ?_⟩ <;> apply UInt8.toNat_inj.mp <;>
      simp [Nat.shiftRight_eq_div_pow, hword] <;> omega
  all_goals simp at h

/-! ## Signed words -/

theorem toNat_complement (value : UInt32) : (~~~value).toNat = 4294967295 - value.toNat := by
  simp [UInt32.toNat_not]

/-- The complement that `readI32` negates fits into `int32_t`, and so do its negation and the
predecessor of that. -/
theorem complement_range {value : UInt32} (h : ¬ value ≤ 0x7fffffff) :
    (~~~value).toNat < 2 ^ 31 ∧ -2 ^ 31 ≤ -((~~~value).toNat : Int) ∧
      -2 ^ 31 ≤ -((~~~value).toNat : Int) - 1 := by
  have hlt := value.toNat_lt
  have hgt : ¬ value.toNat ≤ 2147483647 := h
  have hnot := toNat_complement value
  omega

/-- The result of `readI32` is the one that the arithmetic of the integers gives. -/
theorem readI32_toInt (data : List UInt8) :
    (readI32 data).toInt =
      if readU32 data ≤ 0x7fffffff then ((readU32 data).toNat : Int)
      else -((~~~readU32 data).toNat : Int) - 1 := by
  unfold readI32
  dsimp only
  split
  · rename_i hle
    have hle : (readU32 data).toNat ≤ 2147483647 := hle
    exact Int32.toInt_ofInt_of_le (by omega) (by omega)
  · obtain ⟨-, -, hmin⟩ := complement_range ‹_›
    exact Int32.toInt_ofInt_of_le hmin (by omega)

/-- A signed word and its bits. -/
theorem toInt_eq_toUInt32 (x : Int32) :
    x.toInt = if x.toUInt32.toNat < 2 ^ 31 then (x.toUInt32.toNat : Int)
      else (x.toUInt32.toNat : Int) - 2 ^ 32 := by
  have hcond := BitVec.toInt_eq_toNat_cond x.toBitVec
  have hbits : x.toBitVec.toNat = x.toUInt32.toNat := rfl
  have hint : x.toInt = x.toBitVec.toInt := rfl
  rw [hint, hcond, hbits]
  split <;> split <;> omega

theorem toUInt32_readI32 (data : List UInt8) : (readI32 data).toUInt32 = readU32 data := by
  have hread := readI32_toInt data
  have hbits := toInt_eq_toUInt32 (readI32 data)
  have hlt := (readI32 data).toUInt32.toNat_lt
  have hlt' := (readU32 data).toNat_lt
  have hnot := toNat_complement (readU32 data)
  have hle : readU32 data ≤ 0x7fffffff ↔ (readU32 data).toNat ≤ 2147483647 := Iff.rfl
  apply UInt32.toNat_inj.mp
  rw [hread] at hbits
  split at hbits <;> split at hbits <;> omega

theorem toUInt32_injective {x y : Int32} (h : x.toUInt32 = y.toUInt32) : x = y := by
  cases x
  cases y
  exact congrArg Int32.ofUInt32 h

theorem readI32_wordBytes (value : Int32) (rest : List UInt8) :
    readI32 (wordBytes value.toUInt32 ++ rest) = value := by
  apply toUInt32_injective
  rw [toUInt32_readI32, readU32_wordBytes]

/-! ## Records and requests -/

/-- A record of which the first bytes are written. -/
def started (bytes : List UInt8) : List UInt8 := bytes ++ List.replicate (36 - bytes.length) 0

/-- A word is written behind the bytes that are already there. -/
theorem putU32_started {bytes : List UInt8} {offset : Nat} (h : bytes.length = offset)
    (hroom : offset + 4 ≤ 36) (value : UInt32) :
    putU32 (started bytes) offset value = started (bytes ++ wordBytes value) := by
  subst h
  obtain ⟨room, hroom⟩ : ∃ room, 36 - bytes.length = room + 4 := ⟨32 - bytes.length, by omega⟩
  have hzeros : List.replicate (room + 4) (0 : UInt8) = 0 :: 0 :: 0 :: 0 :: List.replicate room 0 :=
    rfl
  have hrest : 36 - (bytes.length + 4) = room := by omega
  have hrange : List.range 4 = [0, 1, 2, 3] := rfl
  simp only [started, putU32, hroom, hzeros, hrange, List.foldl_cons, List.foldl_nil]
  simp [wordBytes, hrest]

theorem length_wordBytes (value : UInt32) : (wordBytes value).length = 4 := rfl

/-- The bytes of a record, word by word. -/
theorem RawRecord.encode_eq (r : RawRecord) :
    r.encode = wordBytes r.rdtSequence ++ wordBytes r.ftSequence ++ wordBytes r.status ++
      wordBytes r.fx.toUInt32 ++ wordBytes r.fy.toUInt32 ++ wordBytes r.fz.toUInt32 ++
      wordBytes r.tx.toUInt32 ++ wordBytes r.ty.toUInt32 ++ wordBytes r.tz.toUInt32 := by
  have hrange : List.range 6 = [0, 1, 2, 3, 4, 5] := rfl
  have hempty : List.replicate 36 (0 : UInt8) = started [] := rfl
  simp only [RawRecord.encode, makeRecord, hrange, hempty, List.foldl_cons, List.foldl_nil]
  repeat rw [putU32_started (by simp [length_wordBytes]) (by decide)]
  simp [started, length_wordBytes]

theorem decodeRecord_isSome (data : List UInt8) :
    (decodeRecord data).isSome ↔ data.length = 36 := by
  unfold decodeRecord
  split <;> simp_all

theorem drop_wordBytes (value : UInt32) (rest : List UInt8) (k : Nat) :
    (wordBytes value ++ rest).drop (k + 4) = rest.drop k := by
  rw [Nat.add_comm, ← length_wordBytes value, List.drop_length_add_append]

theorem decodeRecord_encode (r : RawRecord) : decodeRecord r.encode = some r := by
  have hlen : r.encode.length = 36 := by simp [RawRecord.encode_eq, length_wordBytes]
  have hlast : wordBytes r.tz.toUInt32 = wordBytes r.tz.toUInt32 ++ [] := (List.append_nil _).symm
  rw [decodeRecord, if_neg (by simp [hlen]), RawRecord.encode_eq, hlast]
  simp only [List.append_assoc, drop_wordBytes, List.drop_zero, readU32_wordBytes,
    readI32_wordBytes]

theorem encode_of_decodeRecord {data : List UInt8} {r : RawRecord}
    (h : decodeRecord data = some r) : r.encode = data := by
  have hlen : data.length = 36 := (decodeRecord_isSome data).mp (by simp [h])
  rw [decodeRecord, if_neg (by simp [hlen])] at h
  cases h
  have hword : ∀ k, k + 4 ≤ 36 →
      wordBytes (readU32 (data.drop k)) ++ data.drop (k + 4) = data.drop k := fun k hk => by
    rw [← List.drop_drop]
    exact wordBytes_readU32 (by simp [hlen]; omega)
  have hend : data.drop 36 = [] := List.drop_eq_nil_of_le (by simp [hlen])
  have hlast : wordBytes (readU32 (data.drop 32)) = data.drop 32 := by
    have hword := hword 32 (by decide)
    rwa [hend, List.append_nil] at hword
  have hfirst : wordBytes (readU32 data) ++ data.drop 4 = data := hword 0 (by decide)
  rw [RawRecord.encode_eq]
  simp only [toUInt32_readI32, List.append_assoc]
  rw [hlast, hword 28 (by decide), hword 24 (by decide), hword 20 (by decide),
    hword 16 (by decide), hword 12 (by decide), hword 8 (by decide), hword 4 (by decide), hfirst]

theorem Command.value_injective {command command' : Command}
    (h : command.value = command'.value) : command = command' := by
  cases command <;> cases command' <;> first | rfl | (exact absurd h (by decide))

theorem decodeCommand_encodeRequest (command : Command) (count : UInt32) :
    decodeCommand (encodeRequest command count) = some command.value := by
  have hlen : (encodeRequest command count).length = 8 := rfl
  have hfirst : byteAt (encodeRequest command count) 0 = 0x12 := rfl
  have hsecond : byteAt (encodeRequest command count) 1 = 0x34 := rfl
  have hhigh : byteAt (encodeRequest command count) 2 = (command.value >>> 8).toUInt8 := rfl
  have hlow : byteAt (encodeRequest command count) 3 = command.value.toUInt8 := rfl
  rw [decodeCommand, if_neg (by simp [hlen, hfirst, hsecond]), hhigh, hlow]
  cases command <;> decide

/-- A request ends with the bytes of its count. -/
theorem drop_encodeRequest (command : Command) (count : UInt32) :
    (encodeRequest command count).drop 4 = wordBytes count := rfl

theorem encodeRequest_injective {command command' : Command} {count count' : UInt32}
    (h : encodeRequest command count = encodeRequest command' count') :
    command = command' ∧ count = count' := by
  constructor
  · have hvalue := decodeCommand_encodeRequest command count
    rw [h, decodeCommand_encodeRequest] at hvalue
    exact Command.value_injective (Option.some.inj hvalue).symm
  · have hbytes := congrArg (List.drop 4) h
    rw [drop_encodeRequest, drop_encodeRequest] at hbytes
    rw [← readU32_wordBytes count [], hbytes, readU32_wordBytes]

/-- The codec is lossless: records and the 36-byte strings are in one-to-one correspondence, no
value of `readI32` leaves its type, and a request determines its command, which the sensor
recovers, and its count. -/
theorem codec_lossless :
    (∀ data, (decodeRecord data).isSome ↔ data.length = 36) ∧
    (∀ data r, decodeRecord data = some r → r.encode = data) ∧
    (∀ r, decodeRecord r.encode = some r) ∧
    (∀ data, ¬ readU32 data ≤ 0x7fffffff →
      (~~~readU32 data).toNat < 2 ^ 31 ∧ -2 ^ 31 ≤ -((~~~readU32 data).toNat : Int) ∧
      -2 ^ 31 ≤ -((~~~readU32 data).toNat : Int) - 1 ∧
      (readI32 data).toInt = -((~~~readU32 data).toNat : Int) - 1) ∧
    (∀ command command' count count',
      encodeRequest command count = encodeRequest command' count' →
        command = command' ∧ count = count') ∧
    (∀ command count, decodeCommand (encodeRequest command count) = some command.value) ∧
    Function.Injective Command.value := by
  refine ⟨decodeRecord_isSome, fun _ _ => encode_of_decodeRecord, decodeRecord_encode, ?_,
    fun _ _ _ _ => encodeRequest_injective, decodeCommand_encodeRequest,
    fun _ _ => Command.value_injective⟩
  intro data hgt
  obtain ⟨hfits, hneg, hpred⟩ := complement_range hgt
  exact ⟨hfits, hneg, hpred, by rw [readI32_toInt, if_neg hgt]⟩

end NetFT.Detail
