import Mathlib.Data.List.Basic
import Columnar.Block.View

/-! Which bytes are a block, and what is read from them. A block is its header, four bytes of padding
and eight bytes for each row; the lemmas here put bytes and view side by side, and encoding and
parsing are compared through them. -/

namespace Columnar

namespace BlockHeader

variable {bs : Bytes}

theorem decode?_eq_some_iff {h : BlockHeader} :
    decode? bs = some h ↔ ∃ rest, bs = h.encode ++ rest := by
  constructor
  · intro hd
    exact ⟨bs.drop size, by rw [← take_of_decode? hd, List.take_append_drop]⟩
  · rintro ⟨rest, rfl⟩
    exact decode?_encode h rest

theorem exists_decode? (hs : size ≤ bs.length) : ∃ h, decode? bs = some h :=
  ⟨_, by rw [decode?, Bytes.split?_of_le hs]; rfl⟩

variable (h : BlockHeader) (rest : Bytes)

theorem length_encode_append : (h.encode ++ rest).length = 12 + rest.length := by
  rw [List.length_append, length_encode, size]

theorem drop_encode_append : (h.encode ++ rest).drop 16 = rest.drop 4 := by
  rw [show 16 = h.encode.length + 4 from rfl, List.drop_length_add_append]

theorem rowCount_encode : Bytes.value ((h.encode ++ rest).extract 4 8) = h.rowCount.toNat := by
  have hword : (h.encode ++ rest).extract 4 8 = Bytes.ofUInt32 h.rowCount := rfl
  rw [hword, Bytes.value_ofUInt32]

theorem payloadLength_encode :
    Bytes.value ((h.encode ++ rest).extract 8 12) = h.payloadLength.toNat := by
  have hword : (h.encode ++ rest).extract 8 12 = Bytes.ofUInt32 h.payloadLength := rfl
  rw [hword, Bytes.value_ofUInt32]

end BlockHeader

theorem flatMap_readWords (acc : Array UInt64) {count : Nat} {bs : Bytes}
    (h : 8 * count ≤ bs.length) :
    (readWords acc count bs).toList.flatMap Bytes.ofUInt64 =
      acc.toList.flatMap Bytes.ofUInt64 ++ bs.take (8 * count) := by
  induction count generalizing acc bs with
  | zero => simp [readWords]
  | succ n ih =>
    have hword : Bytes.ofUInt64 (Bytes.toUInt64 (bs.take 8)) = bs.take 8 :=
      Bytes.ofUInt64_toUInt64 (by rw [List.length_take]; omega)
    have hrest : 8 * n ≤ (bs.drop 8).length := by rw [List.length_drop]; omega
    rw [readWords, ih _ hrest, Array.toList_push, List.flatMap_append, List.flatMap_singleton, hword,
      List.append_assoc, Nat.mul_succ, Nat.add_comm (8 * n), List.take_add]

namespace Values

@[simp] theorem length_payload (v : Values) : v.payload.length = 8 * v.size := by
  rw [payload, ← length_words]
  induction v.words with
  | nil => rfl
  | cons w ws ih =>
    rw [List.flatMap_cons, List.length_append, ih, Bytes.length_ofUInt64, List.length_cons]
    omega

theorem length_block (v : Values) : v.block.length = 16 + 8 * v.size := by
  rw [block, length_encodeBlock, length_payload]

theorem payload_ofWords_readWords (type : ValueType) {count : Nat} {bs : Bytes}
    (h : 8 * count ≤ bs.length) :
    (ofWords type (readWords #[] count bs)).payload = bs.take (8 * count) := by
  rw [payload, words_ofWords, flatMap_readWords #[] h]
  rfl

theorem ofWords_readWords (v : Values) : ofWords v.type (readWords #[] v.size v.payload) = v := by
  have hread := readWords_flatMap #[] v.words []
  rw [List.append_nil, length_words, Array.empty_append] at hread
  rw [payload, hread, ofWords_words]

end Values

namespace BlockView

variable {bs : Bytes} {view : BlockView}

theorem width_eq (type : ValueType) : type.width = 8 := by cases type <;> rfl

theorem parse_append (h : BlockHeader) (tail : Bytes) : parse (h.encode ++ tail) =
    match ValueType.ofTag? h.tag with
    | none => .error (.unknownTag h.tag)
    | some type =>
      if h.payloadLength.toNat ≠ 8 * h.rowCount.toNat then
        .error (.payloadLength h.payloadLength h.rowCount type)
      else if tail.length < 4 + 8 * h.rowCount.toNat then .error .payloadOutOfBounds
      else .ok ⟨h, type, (tail.drop 4).take (8 * h.rowCount.toNat)⟩ := by
  have hlen := BlockHeader.length_encode_append h tail
  cases ht : ValueType.ofTag? h.tag with
  | none => simp only [parse, BlockHeader.decode?_encode, ht]
  | some type =>
    simp only [parse, BlockHeader.decode?_encode, ht, width_eq, payloadStart_eq, Nat.mul_comm _ 8]
    split
    · rfl
    · split
      · rename_i hs
        have hshort := Bytes.split?_eq_none_iff.1 hs
        rw [if_pos (by omega)]
      · rename_i block rest hs
        obtain ⟨hbs, hblock⟩ := Bytes.split?_eq_some_iff.1 hs
        have htotal := congrArg List.length hbs
        rw [hlen, List.length_append] at htotal
        have hfront : block = (h.encode ++ tail).take (16 + 8 * h.rowCount.toNat) := by
          rw [hbs, List.take_left' hblock]
        rw [if_neg (by omega), hfront, List.drop_take, BlockHeader.drop_encode_append,
          Nat.add_sub_cancel_left]

theorem parse_encodeBlock (type : ValueType) (rows : UInt32) (payload : Bytes) :
    parse (encodeBlock type rows payload) =
      if Nat.pow 2 29 ≤ rows.toNat then .error (.payloadLength 0xFFFFFFFF rows type)
      else if payload.length < 8 * rows.toNat then .error .payloadOutOfBounds
      else .ok ⟨.ofRows type rows, type, payload.take (8 * rows.toNat)⟩ := by
  have htag : ValueType.ofTag? (BlockHeader.ofRows type rows).tag = some type :=
    ValueType.ofTag?_eq_some_iff.2 rfl
  have hrows : (BlockHeader.ofRows type rows).rowCount = rows := rfl
  have hpow : Nat.pow 2 29 = 536870912 := rfl
  have hword : UInt32.size = 4294967296 := rfl
  rw [encodeBlock, List.append_assoc, parse_append, htag]
  simp only [hrows]
  by_cases hbig : Nat.pow 2 29 ≤ rows.toNat
  · have hfull : (BlockHeader.ofRows type rows).payloadLength = 0xFFFFFFFF := by
      rw [BlockHeader.ofRows, width_eq, Nat.min_eq_right (by omega)]
      rfl
    have hvalue : (0xFFFFFFFF : UInt32).toNat = 4294967295 := rfl
    rw [if_pos hbig, hfull, if_pos (by rw [hvalue]; omega)]
  · have hexact : (BlockHeader.ofRows type rows).payloadLength.toNat = 8 * rows.toNat := by
      rw [BlockHeader.ofRows, width_eq, Nat.min_eq_left (by omega), Nat.mul_comm]
      exact UInt32.toNat_ofNat_of_lt' (by omega)
    have hpad : (List.replicate (payloadStart type - BlockHeader.size) (0 : UInt8)).length = 4 := by
      rw [List.length_replicate, payloadStart_eq, BlockHeader.size]
    rw [if_neg hbig, if_neg (not_not.2 hexact), List.length_append, hpad, List.drop_left' hpad]
    simp only [Nat.add_lt_add_iff_left]

theorem parse_block {v : Values} (h : v.size ≤ BlockHeader.maxRows) :
    ∃ view, parse v.block = .ok view ∧ view.type = v.type ∧
      view.header.rowCount = .ofNat v.size ∧ view.values = v := by
  have hmax : BlockHeader.maxRows = 536870909 := rfl
  have hpow : Nat.pow 2 29 = 536870912 := rfl
  have hword : UInt32.size = 4294967296 := rfl
  have hrows : (UInt32.ofNat v.size).toNat = v.size := UInt32.toNat_ofNat_of_lt' (by omega)
  refine ⟨⟨.ofRows v.type (.ofNat v.size), v.type, v.payload⟩, ?_, rfl, rfl, ?_⟩
  · rw [Values.block, parse_encodeBlock, hrows, if_neg (by omega), Values.length_payload,
      if_neg (by omega), List.take_of_length_le (Nat.le_of_eq (Values.length_payload v))]
  · rw [values, rowCount, BlockHeader.ofRows, hrows, Values.ofWords_readWords]

/-- The header is whole and names a type, and the payload it announces is that of its rows and lies
inside the bytes. -/
structure Admits (bs : Bytes) : Prop where
  header : 12 ≤ bs.length
  tag : bs[0]? = some 1 ∨ bs[0]? = some 3
  announced : Bytes.value (bs.extract 8 12) = 8 * Bytes.value (bs.extract 4 8)
  payload : 16 + 8 * Bytes.value (bs.extract 4 8) ≤ bs.length

theorem parse_of_short (h : bs.length < BlockHeader.size) : parse bs = .error .headerTooSmall := by
  have hd : BlockHeader.decode? bs = none := by
    rw [BlockHeader.decode?, Bytes.split?_eq_none_iff.2 h]
    rfl
  rw [parse, hd]

theorem admits_append_iff {h : BlockHeader} {tail : Bytes} : Admits (h.encode ++ tail) ↔
    (∃ type, ValueType.ofTag? h.tag = some type) ∧
      h.payloadLength.toNat = 8 * h.rowCount.toNat ∧ 4 + 8 * h.rowCount.toNat ≤ tail.length := by
  have hlen := BlockHeader.length_encode_append h tail
  have hhead : (h.encode ++ tail)[0]? = some h.tag := rfl
  have hrows := BlockHeader.rowCount_encode h tail
  have hpay := BlockHeader.payloadLength_encode h tail
  constructor
  · rintro ⟨-, htag, hannounced, hinside⟩
    rw [hrows] at hannounced hinside
    rw [hpay] at hannounced
    refine ⟨?_, hannounced, by omega⟩
    rw [hhead, Option.some_inj, Option.some_inj] at htag
    rcases htag with h1 | h3
    · exact ⟨.int64, ValueType.ofTag?_eq_some_iff.2 h1⟩
    · exact ⟨.float64, ValueType.ofTag?_eq_some_iff.2 h3⟩
  · rintro ⟨⟨type, htype⟩, hannounced, hinside⟩
    refine ⟨by omega, ?_, by rw [hrows, hpay, hannounced], by rw [hrows]; omega⟩
    rw [hhead, ValueType.ofTag?_eq_some_iff.1 htype]
    cases type with
    | int64 => exact Or.inl rfl
    | float64 => exact Or.inr rfl

theorem parse_eq_ok_iff_admits : (∃ view, parse bs = .ok view) ↔ Admits bs := by
  by_cases hs : BlockHeader.size ≤ bs.length
  · obtain ⟨h, hd⟩ := BlockHeader.exists_decode? hs
    obtain ⟨tail, rfl⟩ := BlockHeader.decode?_eq_some_iff.1 hd
    rw [admits_append_iff, parse_append]
    cases ValueType.ofTag? h.tag with
    | none => simp
    | some type =>
      simp only [Option.some_inj, exists_eq', true_and]
      by_cases hlen : h.payloadLength.toNat = 8 * h.rowCount.toNat
      · by_cases hin : 4 + 8 * h.rowCount.toNat ≤ tail.length
        · simp [hlen, hin, Nat.not_lt.2 hin]
        · simp [hlen, hin, Nat.not_le.1 hin]
      · simp [hlen]
  · rw [parse_of_short (Nat.not_le.1 hs)]
    simp only [reduceCtorEq, exists_false, false_iff]
    intro h
    exact hs h.header

theorem view_of_parse (h : parse bs = .ok view) :
    bs[0]? = some view.type.tag ∧ Bytes.value (bs.extract 4 8) = view.rowCount ∧
      view.payload = bs.extract 16 (16 + 8 * view.rowCount) ∧
      view.payload.length = 8 * view.rowCount := by
  have hadmits := parse_eq_ok_iff_admits.1 ⟨view, h⟩
  obtain ⟨header, hd⟩ := BlockHeader.exists_decode? hadmits.header
  obtain ⟨tail, rfl⟩ := BlockHeader.decode?_eq_some_iff.1 hd
  obtain ⟨⟨type, htype⟩, hlen, hin⟩ := admits_append_iff.1 hadmits
  rw [parse_append, htype] at h
  simp only [hlen, ne_eq, not_true_eq_false, if_false, if_neg (Nat.not_lt.2 hin)] at h
  obtain rfl := Except.ok.inj h
  refine ⟨?_, BlockHeader.rowCount_encode header tail, ?_, ?_⟩
  · exact congrArg some (ValueType.ofTag?_eq_some_iff.1 htype)
  · rw [List.extract_eq_take_drop, BlockHeader.drop_encode_append, Nat.add_sub_cancel_left]
    rfl
  · simp only [rowCount, List.length_take, List.length_drop]
    omega

theorem valuesAs_type (view : BlockView) : view.valuesAs view.type = .ok view.values := by
  rw [valuesAs, if_pos rfl]

/-- Parsing takes the bytes with a fitting header and no others, decoding gives the words that stand
in them, and an encoded block gives its values back unless its payload is short or its length does
not fit: then it is refused. -/
theorem codec_exact :
    (∀ bs, (∃ view, parse bs = .ok view) ↔ Admits bs) ∧
      (∀ bs view, parse bs = .ok view → bs[0]? = some view.type.tag ∧
        ∃ v : Values, view.valuesAs view.type = .ok v ∧ v.type = view.type ∧
          v.size = Bytes.value (bs.extract 4 8) ∧ v.payload = bs.extract 16 (16 + 8 * v.size)) ∧
      (∀ v : Values, v.size ≤ BlockHeader.maxRows → ∃ view,
        parse (encodeBlock v.type (.ofNat v.size) v.payload) = .ok view ∧ view.type = v.type ∧
          view.valuesAs view.type = .ok v) ∧
      ∀ type (rows : UInt32) payload,
        payload.length < 8 * rows.toNat ∨ Nat.pow 2 29 ≤ rows.toNat →
          parse (encodeBlock type rows payload) = .error
            (if Nat.pow 2 29 ≤ rows.toNat then .payloadLength 0xFFFFFFFF rows type
              else .payloadOutOfBounds) := by
  refine ⟨fun _ => parse_eq_ok_iff_admits, ?_, ?_, ?_⟩
  · intro bs view h
    obtain ⟨htag, hrows, hpayload, hlen⟩ := view_of_parse h
    refine ⟨htag, view.values, valuesAs_type view, type_values view, ?_, ?_⟩
    · rw [size_values, hrows]
    · rw [size_values, ← hpayload, values, Values.payload_ofWords_readWords _ (Nat.le_of_eq hlen.symm),
        ← hlen, List.take_length]
  · intro v hv
    obtain ⟨view, hparse, htype, -, hvalues⟩ := parse_block hv
    refine ⟨view, hparse, htype, ?_⟩
    rw [valuesAs_type, hvalues]
  · intro type rows payload h
    rw [parse_encodeBlock]
    by_cases hbig : Nat.pow 2 29 ≤ rows.toNat
    · rw [if_pos hbig, if_pos hbig]
    · rw [if_neg hbig, if_neg hbig, if_pos (h.resolve_right hbig)]

def edgeInts : Values := .ints #[-1, Int64.minValue]

theorem edgeInts_codec : Admits (edgeInts.block ++ [9]) ∧
    (∃ view, parse (edgeInts.block ++ [9]) = .ok view ∧
      ∃ v : Values, view.valuesAs view.type = .ok v ∧
        v.payload = (edgeInts.block ++ [9]).extract 16 (16 + 8 * v.size)) ∧
    (∃ view, parse (encodeBlock .int64 2 edgeInts.payload) = .ok view ∧
      view.valuesAs view.type = .ok edgeInts) ∧
    parse (encodeBlock .int64 2 (edgeInts.payload.take 15)) = .error .payloadOutOfBounds ∧
    parse (encodeBlock .float64 0x20000000 []) =
      .error (.payloadLength 0xFFFFFFFF 0x20000000 .float64) := by
  obtain ⟨haccepts, hdecodes, hreturns, hrefuses⟩ := codec_exact
  have hadmits : Admits (edgeInts.block ++ [9]) :=
    ⟨by decide, by decide, by decide, by decide⟩
  obtain ⟨view, hview⟩ := (haccepts _).2 hadmits
  obtain ⟨-, v, hv, -, -, hpayload⟩ := hdecodes _ view hview
  obtain ⟨back, hback, -, hvalues⟩ := hreturns edgeInts (by decide)
  exact ⟨hadmits, ⟨view, hview, v, hv, hpayload⟩, ⟨back, hback, hvalues⟩,
    hrefuses .int64 2 (edgeInts.payload.take 15) (by decide),
    hrefuses .float64 0x20000000 [] (by decide)⟩

end BlockView
end Columnar
