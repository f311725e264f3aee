import Chip8.Proofs.Operands

namespace Chip8

theorem toNat_div_sixteen (b : UInt8) : (b / 0x10).toNat = b.toNat / 0x10 := UInt8.toNat_div b 0x10

theorem toNat_mod_sixteen (b : UInt8) : (b % 0x10).toNat = b.toNat % 0x10 := UInt8.toNat_mod b 0x10

theorem toNat_eq_digits (b : UInt8) : b.toNat = 0x10 * (b / 0x10).toNat + (b % 0x10).toNat := by
  rw [toNat_div_sixteen, toNat_mod_sixteen]
  omega

theorem eq_iff_digits {b c : UInt8} :
    b = c ↔ 0x10 * (b / 0x10).toNat + (b % 0x10).toNat = c.toNat := by
  rw [← UInt8.toNat_inj, toNat_eq_digits b]

theorem address_eq_iff_digits {high low : UInt8} {a : UInt16} :
    0x100 * (high % 0x10).toUInt16 + low.toUInt16 = a ↔
      0x100 * (high % 0x10).toNat + 0x10 * (low / 0x10).toNat + (low % 0x10).toNat = a.toNat := by
  have hhigh := toNat_mod_sixteen high
  have hlow := toNat_eq_digits low
  have hlt := low.toNat_lt
  simp only [← UInt16.toNat_inj, UInt16.toNat_add, UInt16.toNat_mul, UInt8.toNat_toUInt16,
    UInt16.reduceToNat]
  omega

namespace Opcode

variable (high low : UInt8)

theorem family_ofBytes : (ofBytes high low).family = high / 0x10 := by
  have hlow := low.toNat_lt
  apply UInt8.toNat_inj.1
  rw [toNat_family, toNat_ofBytes, toNat_div_sixteen]
  omega

theorem x_ofBytes : (ofBytes high low).x = high % 0x10 := by
  have hlow := low.toNat_lt
  apply UInt8.toNat_inj.1
  rw [toNat_x, toNat_ofBytes, toNat_mod_sixteen]
  omega

theorem y_ofBytes : (ofBytes high low).y = low / 0x10 := by
  have hlow := low.toNat_lt
  apply UInt8.toNat_inj.1
  rw [toNat_y, toNat_ofBytes, toNat_div_sixteen]
  omega

theorem n_ofBytes : (ofBytes high low).n = low % 0x10 := by
  have hlow := low.toNat_lt
  apply UInt8.toNat_inj.1
  rw [toNat_n, toNat_ofBytes, toNat_mod_sixteen]
  omega

theorem nn_ofBytes : (ofBytes high low).nn = low := by
  have hlow := low.toNat_lt
  apply UInt8.toNat_inj.1
  rw [toNat_nn, toNat_ofBytes]
  omega

theorem nnn_ofBytes :
    (ofBytes high low).nnn = 0x100 * (high % 0x10).toUInt16 + low.toUInt16 := by
  have hlow := low.toNat_lt
  apply UInt16.toNat_inj.1
  simp only [toNat_nnn, toNat_ofBytes, UInt16.toNat_add, UInt16.toNat_mul, UInt8.toNat_toUInt16,
    UInt8.toNat_mod, UInt8.reduceToNat, UInt16.reduceToNat]
  omega

end Opcode

namespace Instruction

variable {w t : Opcode} {x y n nn : UInt8} {a : UInt16} {i : Instruction}

theorem toNat_fillX : (fillX t x).toNat = (t.toNat + 0x100 * x.toNat) % 0x10000 := by
  simp only [fillX, UInt16.toNat_add, UInt16.toNat_mul, UInt8.toNat_toUInt16, UInt16.reduceToNat]
  omega

theorem toNat_fillXY :
    (fillXY t x y).toNat = (t.toNat + 0x100 * x.toNat + 0x10 * y.toNat) % 0x10000 := by
  simp only [fillXY, toNat_fillX, UInt16.toNat_add, UInt16.toNat_mul, UInt8.toNat_toUInt16,
    UInt16.reduceToNat]
  omega

theorem toNat_fillXNN :
    (fillXNN t x nn).toNat = (t.toNat + 0x100 * x.toNat + nn.toNat) % 0x10000 := by
  simp only [fillXNN, toNat_fillX, UInt16.toNat_add, UInt8.toNat_toUInt16]
  omega

/-! A template filled with the fields of a word is the word, if it has the other digits of it. -/

theorem add_nnn (h : t.toNat = 0x1000 * w.family.toNat) : t + w.nnn = w := by
  have hw := w.toNat_lt
  apply UInt16.toNat_inj.1
  rw [UInt16.toNat_add, h, w.toNat_family, w.toNat_nnn]
  omega

theorem fillXNN_fields (h : t.toNat = 0x1000 * w.family.toNat) : fillXNN t w.x w.nn = w := by
  have hw := w.toNat_lt
  apply UInt16.toNat_inj.1
  rw [toNat_fillXNN, h, w.toNat_family, w.toNat_x, w.toNat_nn]
  omega

theorem fillX_fields (h : t.toNat = 0x1000 * w.family.toNat + w.nn.toNat) : fillX t w.x = w := by
  have hw := w.toNat_lt
  apply UInt16.toNat_inj.1
  rw [toNat_fillX, h, w.toNat_family, w.toNat_x, w.toNat_nn]
  omega

theorem fillXY_fields (h : t.toNat = 0x1000 * w.family.toNat) (ha : a.toNat = w.n.toNat) :
    fillXY t w.x w.y + a = w := by
  have hw := w.toNat_lt
  apply UInt16.toNat_inj.1
  rw [UInt16.toNat_add, toNat_fillXY, h, ha, w.toNat_family, w.toNat_x, w.toNat_y, w.toNat_n]
  omega

theorem nnn_eq (h : w.family.toNat = 0) : w.nnn = w := by
  rw [w.toNat_family] at h
  apply UInt16.toNat_inj.1
  rw [w.toNat_nnn]
  omega

theorem toNat_encode_of_decode {op : Arithmetic} (h : Arithmetic.decode n = some op) :
    op.encode.toNat = n.toNat := by
  unfold Arithmetic.decode at h
  split at h
  case h_10 => cases h
  all_goals
    next hn =>
      cases h
      exact hn.symm

theorem encode_of_decodeDevice (hf : w.family.toNat = 0xF) (h : decodeDevice w.x w.nn = some i) :
    i.encode = w := by
  unfold decodeDevice at h
  split at h
  case h_10 => cases h
  all_goals
    next hnn =>
      cases h
      exact fillX_fields (by rw [hf, hnn]; rfl)

theorem encode_of_decode (h : decode w = some i) : i.encode = w := by
  unfold decode at h
  split at h
  case h_1 hf =>
      rw [nnn_eq hf] at h
      cases h
      split
      · next hw => exact hw.symm
      · split
        · next hw => exact hw.symm
        · rfl
  case h_2 hf | h_3 hf | h_11 hf | h_12 hf =>
      cases h
      exact add_nnn (by rw [hf]; rfl)
  case h_4 hf | h_5 hf | h_7 hf | h_8 hf | h_13 hf =>
      cases h
      exact fillXNN_fields (by rw [hf]; rfl)
  case h_6 hf | h_10 hf =>
      split at h
      · next hn =>
        cases h
        have hzero : (0 : UInt16).toNat = w.n.toNat := (congrArg UInt8.toNat hn).symm
        exact (UInt16.add_zero _).symm.trans (fillXY_fields (by rw [hf]; rfl) hzero)
      · cases h
  case h_9 hf =>
      obtain ⟨op, hop, rfl⟩ := Option.map_eq_some_iff.1 h
      exact fillXY_fields (by rw [hf]; rfl) (toNat_encode_of_decode hop)
  case h_14 hf =>
      split at h
      · cases h
      · cases h
        exact fillXY_fields (by rw [hf]; rfl) (UInt8.toNat_toUInt16 _)
  case h_15 hf =>
      split at h
      · next hnn =>
        cases h
        exact fillX_fields (by rw [hf, hnn]; rfl)
      · split at h
        · next hnn =>
          cases h
          exact fillX_fields (by rw [hf, hnn]; rfl)
        · cases h
  case h_16 hf => exact encode_of_decodeDevice hf h
  case h_17 => cases h

/-! The fields of a template that has been filled are what it has been filled with. -/

theorem fields_add (ht : t.toNat % 0x1000 = 0) (ha : a.toNat < 0x1000) :
    (t + a).family = t.family ∧ (t + a).nnn = a := by
  have hlt := t.toNat_lt
  have hsum : (t + a).toNat = t.toNat + a.toNat := by
    rw [UInt16.toNat_add]
    omega
  constructor
  · apply UInt8.toNat_inj.1
    rw [Opcode.toNat_family, Opcode.toNat_family, hsum]
    omega
  · apply UInt16.toNat_inj.1
    rw [Opcode.toNat_nnn, hsum]
    omega

theorem family_x_of_toNat {k : Nat} (h : w.toNat = t.toNat + 0x100 * x.toNat + k)
    (ht : t.toNat % 0x1000 + k < 0x100) (hx : x.toNat < 16) :
    w.family = t.family ∧ w.x = x := by
  have hlt := t.toNat_lt
  constructor
  · apply UInt8.toNat_inj.1
    rw [w.toNat_family, t.toNat_family, h]
    omega
  · apply UInt8.toNat_inj.1
    rw [w.toNat_x, h]
    omega

theorem fields_fillX (ht : t.toNat % 0x1000 < 0x100) (hx : x.toNat < 16) :
    (fillX t x).family = t.family ∧ (fillX t x).x = x ∧ (fillX t x).nn = t.nn := by
  have hlt := t.toNat_lt
  have hsum : (fillX t x).toNat = t.toNat + 0x100 * x.toNat + 0 := by
    rw [toNat_fillX]
    omega
  obtain ⟨hfamily, hfield⟩ := family_x_of_toNat hsum ht hx
  refine ⟨hfamily, hfield, UInt8.toNat_inj.1 ?_⟩
  rw [Opcode.toNat_nn, Opcode.toNat_nn, hsum]
  omega

theorem fields_fillXNN (ht : t.toNat % 0x1000 = 0) (hx : x.toNat < 16) (nn : UInt8) :
    (fillXNN t x nn).family = t.family ∧ (fillXNN t x nn).x = x ∧ (fillXNN t x nn).nn = nn := by
  have hlt := t.toNat_lt
  have hnn := nn.toNat_lt
  have hsum : (fillXNN t x nn).toNat = t.toNat + 0x100 * x.toNat + nn.toNat := by
    rw [toNat_fillXNN]
    omega
  obtain ⟨hfamily, hfield⟩ := family_x_of_toNat hsum (by omega) hx
  refine ⟨hfamily, hfield, UInt8.toNat_inj.1 ?_⟩
  rw [Opcode.toNat_nn, hsum]
  omega

theorem fields_fillXY (ht : t.toNat % 0x1000 = 0) (hx : x.toNat < 16) (hy : y.toNat < 16)
    (ha : a.toNat < 16) : (fillXY t x y + a).family = t.family ∧ (fillXY t x y + a).x = x ∧
      (fillXY t x y + a).y = y ∧ (fillXY t x y + a).n = a.toUInt8 := by
  have hlt := t.toNat_lt
  have hsum : (fillXY t x y + a).toNat =
      t.toNat + 0x100 * x.toNat + (0x10 * y.toNat + a.toNat) := by
    rw [UInt16.toNat_add, toNat_fillXY]
    omega
  obtain ⟨hfamily, hfield⟩ := family_x_of_toNat hsum (by omega) hx
  refine ⟨hfamily, hfield, UInt8.toNat_inj.1 ?_, UInt8.toNat_inj.1 ?_⟩
  · rw [Opcode.toNat_y, hsum]
    omega
  · rw [Opcode.toNat_n, hsum, UInt16.toNat_toUInt8]
    omega

theorem decode_encode_skip {c : Condition} (hc : c.InRange) :
    decode (encode (.skip c)) = some (.skip c) := by
  cases c with
  | holds x n =>
      obtain ⟨hf, hx, hn⟩ := fields_fillXNN (t := 0x3000) rfl hc n
      rw [encode, decode, hf, hx, hn]
      rfl
  | lacks x n =>
      obtain ⟨hf, hx, hn⟩ := fields_fillXNN (t := 0x4000) rfl hc n
      rw [encode, decode, hf, hx, hn]
      rfl
  | equal x y =>
      obtain ⟨hf, hx, hy, hn⟩ := fields_fillXY (t := 0x5000) (a := 0) rfl hc.1 hc.2 (by decide)
      rw [UInt16.add_zero] at hf hx hy hn
      rw [encode, decode, hf, hx, hy, hn]
      rfl
  | differ x y =>
      obtain ⟨hf, hx, hy, hn⟩ := fields_fillXY (t := 0x9000) (a := 0) rfl hc.1 hc.2 (by decide)
      rw [UInt16.add_zero] at hf hx hy hn
      rw [encode, decode, hf, hx, hy, hn]
      rfl
  | keyDown x =>
      obtain ⟨hf, hx, hn⟩ := fields_fillX (t := 0xE09E) (by decide) hc
      rw [encode, decode, hf, hx, hn]
      rfl
  | keyUp x =>
      obtain ⟨hf, hx, hn⟩ := fields_fillX (t := 0xE0A1) (by decide) hc
      rw [encode, decode, hf, hx, hn]
      rfl

theorem decode_fillX (ht : t.toNat % 0x1000 < 0x100) (hf : t.family = 0xF) (hx : x.toNat < 16) :
    decode (fillX t x) = decodeDevice x t.nn := by
  obtain ⟨hfamily, hfield, hnn⟩ := fields_fillX ht hx
  rw [decode, hfamily, hf, hfield, hnn]
  rfl

theorem decode_sys (ha : a.toNat < 0x1000) :
    decode a = some (if a = 0x0E0 then .clearScreen else if a = 0x0EE then .ret else .sys a) := by
  have hf : Opcode.family a = 0 := by
    apply UInt8.toNat_inj.1
    rw [Opcode.toNat_family, Nat.div_eq_of_lt ha]
    rfl
  rw [decode, hf, nnn_eq (congrArg UInt8.toNat hf)]
  rfl

theorem decode_draw {height : UInt8} (hx : x.toNat < 16) (hy : y.toNat < 16)
    (hlt : height.toNat < 16) :
    decode (encode (.draw x y height)) = if height = 0 then none else some (.draw x y height) := by
  obtain ⟨hf, hx, hy, hn⟩ := fields_fillXY (t := 0xD000) (a := height.toUInt16) rfl hx hy hlt
  rw [encode, decode, hf, hx, hy, hn, UInt8.toUInt8_toUInt16]
  rfl

/-- Two of the addresses of `0NNN` are taken by instructions of their own. -/
theorem decode_encode (hi : i.InRange) (hclear : i ≠ .sys 0x0E0) (hret : i ≠ .sys 0x0EE) :
    decode i.encode = some i := by
  cases i with
  | clearScreen | ret => rfl
  | sys a =>
      rw [encode, decode_sys hi, if_neg (mt (congrArg sys) hclear), if_neg (mt (congrArg sys) hret)]
  | jump a =>
      obtain ⟨hf, ha⟩ := fields_add (t := 0x1000) rfl hi
      rw [encode, decode, hf, ha]
      rfl
  | call a =>
      obtain ⟨hf, ha⟩ := fields_add (t := 0x2000) rfl hi
      rw [encode, decode, hf, ha]
      rfl
  | skip c => exact decode_encode_skip hi
  | setByte x n =>
      obtain ⟨hf, hx, hn⟩ := fields_fillXNN (t := 0x6000) rfl hi n
      rw [encode, decode, hf, hx, hn]
      rfl
  | addByte x n =>
      obtain ⟨hf, hx, hn⟩ := fields_fillXNN (t := 0x7000) rfl hi n
      rw [encode, decode, hf, hx, hn]
      rfl
  | combine op x y =>
      have hop : op.encode.toNat < 16 := by cases op <;> decide
      obtain ⟨hf, hx, hy, hn⟩ := fields_fillXY (t := 0x8000) rfl hi.1 hi.2 hop
      rw [encode, decode, hf, hx, hy, hn]
      cases op with
      | copy | or | and | xor | add | sub | shiftRight | subFrom | shiftLeft => rfl
  | setIndex a =>
      obtain ⟨hf, ha⟩ := fields_add (t := 0xA000) rfl hi
      rw [encode, decode, hf, ha]
      rfl
  | jumpOffset a =>
      obtain ⟨hf, ha⟩ := fields_add (t := 0xB000) rfl hi
      rw [encode, decode, hf, ha]
      rfl
  | random x mask =>
      obtain ⟨hf, hx, hn⟩ := fields_fillXNN (t := 0xC000) rfl hi mask
      rw [encode, decode, hf, hx, hn]
      rfl
  | draw x y height =>
      obtain ⟨hx, hy, hpos, hlt⟩ := hi
      have hheight : height ≠ 0 := by
        rintro rfl
        exact Nat.lt_irrefl 0 hpos
      rw [decode_draw hx hy hlt, if_neg hheight]
  | readDelay | awaitKey | setDelay | setSound | addIndex | pointGlyph | storeDecimal | store
  | load => exact decode_fillX (by decide) rfl hi

def FitsTemplate : Instruction → Prop
  | .draw x y height => x.toNat < 16 ∧ y.toNat < 16 ∧ height.toNat < 16
  | i => i.InRange

theorem InRange.fitsTemplate (hi : i.InRange) : i.FitsTemplate := by
  cases i with
  | draw x y height => exact ⟨hi.1, hi.2.1, hi.2.2.2⟩
  | _ => exact hi

theorem decode_encode_ne_none (hi : i.FitsTemplate) (h : ∀ x y, i ≠ .draw x y 0) :
    decode i.encode ≠ none := by
  -- two instances of `0NNN` decode to something else than they were encoded from
  by_cases hclear : i = .sys 0x0E0
  · subst hclear
    decide
  by_cases hret : i = .sys 0x0EE
  · subst hret
    decide
  have hrange : i.InRange := by
    cases i with
    | draw x y height =>
        obtain ⟨hx, hy, hlt⟩ := hi
        have hpos : height.toNat ≠ 0 := by
          intro h0
          have hheight : height = 0 := UInt8.toNat_inj.1 h0
          exact h x y (by rw [hheight])
        exact ⟨hx, hy, Nat.pos_of_ne_zero hpos, hlt⟩
    | _ => exact hi
  rw [decode_encode hrange hclear hret]
  rintro ⟨⟩

theorem ofBytes_eq (high low : UInt8) : ofBytes high low = decode (Opcode.ofBytes high low) := by
  have hhigh := toNat_mod_sixteen high
  have hlow := toNat_mod_sixteen low
  have hx : (high % 0x10).toNat < 0x10 := by omega
  have hn : (low % 0x10).toNat < 0x10 := by omega
  have hzero : low % 0x10 = 0 ↔ (low % 0x10).toNat = 0 := UInt8.toNat_inj.symm
  rw [decode, Opcode.family_ofBytes, Opcode.x_ofBytes, Opcode.y_ofBytes, Opcode.n_ofBytes,
    Opcode.nn_ofBytes, Opcode.nnn_ofBytes, ofBytes]
  -- what is tested of the low byte and of an address, as tests of their digits
  simp only [Arithmetic.decode, decodeDevice, hzero, address_eq_iff_digits, eq_iff_digits (b := low),
    toNat_eq_digits low, UInt8.reduceToNat, UInt16.reduceToNat]
  clear hhigh hlow hzero
  generalize (high / 0x10).toNat = f
  generalize (high % 0x10).toNat = x at hx
  generalize (low / 0x10).toNat = y
  generalize (low % 0x10).toNat = n at hn
  split
  case h_3 hclear hret =>
    have hclear' : 0x100 * x + 0x10 * y + n ≠ 0xE0 := fun h =>
      hclear (by omega) (by omega) (by omega)
    have hret' : 0x100 * x + 0x10 * y + n ≠ 0xEE := fun h =>
      hret (by omega) (by omega) (by omega)
    rw [if_neg hclear', if_neg hret']
    rfl
  case h_25 hrows => exact (if_neg hrows).symm
  case h_37 =>
    -- no row fits, and so no test of the other reading comes out true
    repeat' split
    all_goals first | rfl | grind
  all_goals rfl

/-- Decoding and encoding are inverse to each other, the words that decode being the instances of
the templates but for the sprites without rows. -/
theorem decode_encode_inverse :
    (∀ w i, decode w = some i → i.encode = w ∧ i.InRange) ∧
    (∀ i : Instruction, i.InRange → i ≠ .sys 0x0E0 → i ≠ .sys 0x0EE → decode i.encode = some i) ∧
    (∀ w, decode w = none ↔ (∀ i : Instruction, i.FitsTemplate → i.encode ≠ w) ∨
      ∃ x y : UInt8, x ≤ 15 ∧ y ≤ 15 ∧ (Instruction.draw x y 0).encode = w) ∧
    (∀ v w i, decode v = some i → decode w = some i → v = w) ∧
    ∀ high low : UInt8,
      ofBytes high low = decode (UInt16.ofNat (256 * high.toNat + low.toNat)) := by
  refine ⟨fun w i h => ⟨encode_of_decode h, decode_inRange h⟩, fun i => decode_encode, ?_, ?_, ?_⟩
  · intro w
    constructor
    · intro hnone
      by_cases hdraw : ∃ x y : UInt8, x ≤ 15 ∧ y ≤ 15 ∧ (Instruction.draw x y 0).encode = w
      · exact .inr hdraw
      · refine .inl ?_
        rintro i hi rfl
        refine decode_encode_ne_none hi ?_ hnone
        rintro x y rfl
        exact hdraw ⟨x, y, Nat.le_of_lt_succ hi.1, Nat.le_of_lt_succ hi.2.1, rfl⟩
    · rintro (hno | ⟨x, y, hx, hy, rfl⟩)
      · cases h : decode w with
        | none => rfl
        | some i => exact absurd (encode_of_decode h) (hno i (decode_inRange h).fitsTemplate)
      · exact decode_draw (Nat.lt_succ_of_le hx) (Nat.lt_succ_of_le hy) (by decide)
  · intro v w i hv hw
    rw [← encode_of_decode hv, encode_of_decode hw]
  · intro high low
    rw [ofBytes_eq, ← Opcode.toNat_ofBytes, UInt16.ofNat_toNat]

theorem decode_encode_inverse_edges :
    decode (encode (.draw 0xF 0 0xF)) = some (.draw 0xF 0 0xF) ∧
      decode (encode (.draw 0xF 0 0)) = none ∧
      encode .clearScreen = 0x00E0 ∧ ofBytes 0x2F 0x2E = decode 0x2F2E := by
  obtain ⟨hencode, hdecode, hnone, -, hbytes⟩ := decode_encode_inverse
  refine ⟨hdecode _ ⟨by decide, by decide, by decide, by decide⟩ nofun nofun, ?_, ?_,
    hbytes 0x2F 0x2E⟩
  · exact (hnone _).2 (.inr ⟨0xF, 0, by decide, by decide, rfl⟩)
  · exact (hencode 0x00E0 .clearScreen (by decide)).1

end Instruction

end Chip8
