import Mathlib.Data.List.Infix

/-!
# UTF-8

Bytes are read code point by code point. Reading is the inverse of encoding; where it stops, either the bytes can be
completed to a code point, or nothing that is appended makes them one.
-/

namespace Utf8

abbrev Bytes := List UInt8

def encode (text : List Char) : Bytes := text.flatMap String.utf8EncodeChar

/-- The front of the bytes: a code point, the start of one, or something that starts none. -/
inductive Read
  | char (c : Char) (rest : Bytes)
  | incomplete
  | invalid (len : Nat)
  deriving DecidableEq

def isContinuation (byte : UInt8) : Bool := decide (0x80 ≤ byte.toNat ∧ byte.toNat ≤ 0xBF)

/-- The second byte rules out what has a shorter encoding, surrogates, and what is above the last code point. -/
def isSecondOfThree (first second : UInt8) : Bool :=
  decide (first.toNat = 0xE0 ∧ 0xA0 ≤ second.toNat ∧ second.toNat ≤ 0xBF) ||
  decide (0xE1 ≤ first.toNat ∧ first.toNat ≤ 0xEC ∧ 0x80 ≤ second.toNat ∧ second.toNat ≤ 0xBF) ||
  decide (first.toNat = 0xED ∧ 0x80 ≤ second.toNat ∧ second.toNat ≤ 0x9F) ||
  decide (0xEE ≤ first.toNat ∧ first.toNat ≤ 0xEF ∧ 0x80 ≤ second.toNat ∧ second.toNat ≤ 0xBF)

def isSecondOfFour (first second : UInt8) : Bool :=
  decide (first.toNat = 0xF0 ∧ 0x90 ≤ second.toNat ∧ second.toNat ≤ 0xBF) ||
  decide (0xF1 ≤ first.toNat ∧ first.toNat ≤ 0xF3 ∧ 0x80 ≤ second.toNat ∧ second.toNat ≤ 0xBF) ||
  decide (first.toNat = 0xF4 ∧ 0x80 ≤ second.toNat ∧ second.toNat ≤ 0x8F)

def readTwo (first : UInt8) : Bytes → Read
  | [] => .incomplete
  | second :: rest =>
      if isContinuation second then .char (.ofNat (first.toNat % 32 * 64 + second.toNat % 64)) rest else .invalid 1

def readThree (first : UInt8) : Bytes → Read
  | [] => .incomplete
  | second :: rest =>
      if !isSecondOfThree first second then .invalid 1
      else match rest with
        | [] => .incomplete
        | third :: rest =>
            if isContinuation third then
              .char (.ofNat (first.toNat % 16 * 4096 + second.toNat % 64 * 64 + third.toNat % 64)) rest
            else .invalid 2

def readFour (first : UInt8) : Bytes → Read
  | [] => .incomplete
  | second :: rest =>
      if !isSecondOfFour first second then .invalid 1
      else match rest with
        | [] => .incomplete
        | third :: rest =>
            if !isContinuation third then .invalid 2
            else match rest with
              | [] => .incomplete
              | fourth :: rest =>
                  if isContinuation fourth then
                    .char (.ofNat (first.toNat % 8 * 262144 + second.toNat % 64 * 4096 + third.toNat % 64 * 64 +
                      fourth.toNat % 64)) rest
                  else .invalid 3

def readChar : Bytes → Read
  | [] => .incomplete
  | first :: rest =>
      if first.toNat < 0x80 then .char (.ofNat first.toNat) rest
      else if 0xC2 ≤ first.toNat ∧ first.toNat ≤ 0xDF then readTwo first rest
      else if 0xE0 ≤ first.toNat ∧ first.toNat ≤ 0xEF then readThree first rest
      else if 0xF0 ≤ first.toNat ∧ first.toNat ≤ 0xF4 then readFour first rest
      else .invalid 1

/-! ## Reading and encoding -/

variable {n : Nat} {first : UInt8} {c : Char} {bytes : Bytes}

theorem ofNat_eq (byte : UInt8) (h : n = byte.toNat) : UInt8.ofNat n = byte := by
  rw [h, UInt8.ofNat_toNat]

theorem val_ofNat (h : n.isValidChar) : (Char.ofNat n).val.toNat = n := by
  rw [Char.ofNat, dif_pos h]
  rfl

theorem ofNat_val (c : Char) (h : n = c.val.toNat) : Char.ofNat n = c := by
  rw [h]
  exact Char.ofNat_toNat c

theorem isValidChar_val (c : Char) : c.val.toNat < 0xd800 ∨ 0xdfff < c.val.toNat ∧ c.val.toNat < 0x110000 := c.valid

theorem exists_byte (h : n < 256) : ∃ byte : UInt8, UInt8.ofNat n = byte ∧ byte.toNat = n :=
  ⟨_, rfl, UInt8.toNat_ofNat_of_lt h⟩

theorem isContinuation_iff {byte : UInt8} : isContinuation byte = true ↔ 0x80 ≤ byte.toNat ∧ byte.toNat ≤ 0xBF :=
  decide_eq_true_iff

theorem isSecondOfThree_iff {second : UInt8} (hfirst : 0xE0 ≤ first.toNat ∧ first.toNat ≤ 0xEF) :
    isSecondOfThree first second = true ↔ 0x80 ≤ second.toNat ∧ second.toNat ≤ 0xBF ∧
      (first.toNat = 0xE0 → 0xA0 ≤ second.toNat) ∧ (first.toNat = 0xED → second.toNat ≤ 0x9F) := by
  simp only [isSecondOfThree, Bool.or_eq_true, decide_eq_true_eq]
  omega

theorem isSecondOfFour_iff {second : UInt8} (hfirst : 0xF0 ≤ first.toNat ∧ first.toNat ≤ 0xF4) :
    isSecondOfFour first second = true ↔ 0x80 ≤ second.toNat ∧ second.toNat ≤ 0xBF ∧
      (first.toNat = 0xF0 → 0x90 ≤ second.toNat) ∧ (first.toNat = 0xF4 → second.toNat ≤ 0x8F) := by
  simp only [isSecondOfFour, Bool.or_eq_true, decide_eq_true_eq]
  omega

section Widths

variable {first : UInt8} (rest : Bytes)

theorem readChar_one (h : first.toNat < 0x80) : readChar (first :: rest) = .char (.ofNat first.toNat) rest := if_pos h

theorem readChar_two (h : 0xC2 ≤ first.toNat ∧ first.toNat ≤ 0xDF) : readChar (first :: rest) = readTwo first rest := by
  rw [readChar, if_neg (by omega), if_pos h]

theorem readChar_three (h : 0xE0 ≤ first.toNat ∧ first.toNat ≤ 0xEF) :
    readChar (first :: rest) = readThree first rest := by
  rw [readChar, if_neg (by omega), if_neg (by omega), if_pos h]

theorem readChar_four (h : 0xF0 ≤ first.toNat ∧ first.toNat ≤ 0xF4) :
    readChar (first :: rest) = readFour first rest := by
  rw [readChar, if_neg (by omega), if_neg (by omega), if_neg (by omega), if_pos h]

end Widths

/-- The encoding by the number of its bytes, each with its value. -/
inductive Encoded (c : Char) : Bytes → Prop
  | one {first : UInt8} (hfirst : first.toNat < 0x80) (hchar : .ofNat first.toNat = c) : Encoded c [first]
  | two {first second : UInt8} (hfirst : 0xC2 ≤ first.toNat ∧ first.toNat ≤ 0xDF)
      (hsecond : isContinuation second = true)
      (hchar : .ofNat (first.toNat % 32 * 64 + second.toNat % 64) = c) : Encoded c [first, second]
  | three {first second third : UInt8} (hfirst : 0xE0 ≤ first.toNat ∧ first.toNat ≤ 0xEF)
      (hsecond : isSecondOfThree first second = true) (hthird : isContinuation third = true)
      (hchar : .ofNat (first.toNat % 16 * 4096 + second.toNat % 64 * 64 + third.toNat % 64) = c) :
      Encoded c [first, second, third]
  | four {first second third fourth : UInt8} (hfirst : 0xF0 ≤ first.toNat ∧ first.toNat ≤ 0xF4)
      (hsecond : isSecondOfFour first second = true) (hthird : isContinuation third = true)
      (hfourth : isContinuation fourth = true)
      (hchar : .ofNat (first.toNat % 8 * 262144 + second.toNat % 64 * 4096 + third.toNat % 64 * 64 +
        fourth.toNat % 64) = c) : Encoded c [first, second, third, fourth]

theorem encoded_encodeChar (c : Char) : Encoded c (String.utf8EncodeChar c) := by
  have hvalid := isValidChar_val c
  unfold String.utf8EncodeChar
  generalize hv : c.val.toNat = v at hvalid ⊢
  dsimp only
  split
  · obtain ⟨first, hfirst, hfirstNat⟩ := exists_byte (n := v) (by omega)
    rw [hfirst]
    exact .one (by omega) (ofNat_val c (by omega))
  · split
    · obtain ⟨first, hfirst, hfirstNat⟩ := exists_byte (n := v / 64 % 32 + 192) (by omega)
      obtain ⟨second, hsecond, hsecondNat⟩ := exists_byte (n := v % 64 + 128) (by omega)
      rw [hfirst, hsecond]
      exact .two (by omega) (isContinuation_iff.mpr (by omega)) (ofNat_val c (by omega))
    · split
      · obtain ⟨first, hfirst, hfirstNat⟩ := exists_byte (n := v / 4096 % 16 + 224) (by omega)
        obtain ⟨second, hsecond, hsecondNat⟩ := exists_byte (n := v / 64 % 64 + 128) (by omega)
        obtain ⟨third, hthird, hthirdNat⟩ := exists_byte (n := v % 64 + 128) (by omega)
        rw [hfirst, hsecond, hthird]
        have hlead : 0xE0 ≤ first.toNat ∧ first.toNat ≤ 0xEF := by omega
        exact .three hlead ((isSecondOfThree_iff hlead).mpr (by omega)) (isContinuation_iff.mpr (by omega))
          (ofNat_val c (by omega))
      · obtain ⟨first, hfirst, hfirstNat⟩ := exists_byte (n := v / 262144 % 8 + 240) (by omega)
        obtain ⟨second, hsecond, hsecondNat⟩ := exists_byte (n := v / 4096 % 64 + 128) (by omega)
        obtain ⟨third, hthird, hthirdNat⟩ := exists_byte (n := v / 64 % 64 + 128) (by omega)
        obtain ⟨fourth, hfourth, hfourthNat⟩ := exists_byte (n := v % 64 + 128) (by omega)
        rw [hfirst, hsecond, hthird, hfourth]
        have hlead : 0xF0 ≤ first.toNat ∧ first.toNat ≤ 0xF4 := by omega
        exact .four hlead ((isSecondOfFour_iff hlead).mpr (by omega)) (isContinuation_iff.mpr (by omega))
          (isContinuation_iff.mpr (by omega)) (ofNat_val c (by omega))

theorem Encoded.eq_encodeChar (h : Encoded c bytes) : String.utf8EncodeChar c = bytes := by
  cases h with
  | @one first hfirst hchar =>
      have hval : c.val.toNat = first.toNat := by
        rw [← hchar]
        exact val_ofNat (.inl (by omega))
      rw [String.utf8EncodeChar, hval]
      rw [if_pos (by omega), UInt8.ofNat_toNat]
  | @two first second hfirst hsecond hchar =>
      have hcontinues := isContinuation_iff.mp hsecond
      have hval : c.val.toNat = first.toNat % 32 * 64 + second.toNat % 64 := by
        rw [← hchar]
        exact val_ofNat (.inl (by omega))
      rw [String.utf8EncodeChar, hval]
      rw [if_neg (by omega), if_pos (by omega), ofNat_eq first (by omega), ofNat_eq second (by omega)]
  | @three first second third hfirst hsecond hthird hchar =>
      have hbound := (isSecondOfThree_iff hfirst).mp hsecond
      have hcontinues := isContinuation_iff.mp hthird
      have hval : c.val.toNat = first.toNat % 16 * 4096 + second.toNat % 64 * 64 + third.toNat % 64 := by
        rw [← hchar]
        apply val_ofNat
        unfold Nat.isValidChar
        omega
      rw [String.utf8EncodeChar, hval]
      rw [if_neg (by omega), if_neg (by omega), if_pos (by omega), ofNat_eq first (by omega),
        ofNat_eq second (by omega), ofNat_eq third (by omega)]
  | @four first second third fourth hfirst hsecond hthird hfourth hchar =>
      have hbound := (isSecondOfFour_iff hfirst).mp hsecond
      have hcontinues := isContinuation_iff.mp hthird
      have hcontinues' := isContinuation_iff.mp hfourth
      have hval : c.val.toNat = first.toNat % 8 * 262144 + second.toNat % 64 * 4096 + third.toNat % 64 * 64 +
          fourth.toNat % 64 := by
        rw [← hchar]
        apply val_ofNat
        unfold Nat.isValidChar
        omega
      rw [String.utf8EncodeChar, hval]
      rw [if_neg (by omega), if_neg (by omega), if_neg (by omega), ofNat_eq first (by omega),
        ofNat_eq second (by omega), ofNat_eq third (by omega),
        ofNat_eq fourth (by omega)]

theorem Encoded.readChar_append (h : Encoded c bytes) (rest : Bytes) : readChar (bytes ++ rest) = .char c rest := by
  cases h with
  | one hfirst hchar =>
      rw [← hchar]
      exact readChar_one rest hfirst
  | two hfirst hsecond hchar =>
      rw [← hchar, List.cons_append, readChar_two _ hfirst]
      exact if_pos hsecond
  | three hfirst hsecond hthird hchar =>
      rw [← hchar, List.cons_append, readChar_three _ hfirst]
      simp [readThree, hsecond, hthird]
  | four hfirst hsecond hthird hfourth hchar =>
      rw [← hchar, List.cons_append, readChar_four _ hfirst]
      simp [readFour, hsecond, hthird, hfourth]

theorem encoded_of_readTwo (hfirst : 0xC2 ≤ first.toNat ∧ first.toNat ≤ 0xDF) {rest : Bytes}
    (h : readTwo first bytes = .char c rest) : ∃ front, first :: bytes = front ++ rest ∧ Encoded c front := by
  unfold readTwo at h
  split at h
  · cases h
  · split at h
    · rename_i hsecond
      cases h
      exact ⟨_, rfl, .two hfirst hsecond rfl⟩
    · cases h

theorem encoded_of_readThree (hfirst : 0xE0 ≤ first.toNat ∧ first.toNat ≤ 0xEF) {rest : Bytes}
    (h : readThree first bytes = .char c rest) : ∃ front, first :: bytes = front ++ rest ∧ Encoded c front := by
  unfold readThree at h
  split at h
  · cases h
  · split at h
    · cases h
    · rename_i hsecond
      split at h
      · cases h
      · split at h
        · rename_i hthird
          cases h
          exact ⟨_, rfl, .three hfirst (by simpa using hsecond) hthird rfl⟩
        · cases h

theorem encoded_of_readFour (hfirst : 0xF0 ≤ first.toNat ∧ first.toNat ≤ 0xF4) {rest : Bytes}
    (h : readFour first bytes = .char c rest) : ∃ front, first :: bytes = front ++ rest ∧ Encoded c front := by
  unfold readFour at h
  split at h
  · cases h
  · split at h
    · cases h
    · rename_i hsecond
      split at h
      · cases h
      · split at h
        · cases h
        · rename_i hthird
          split at h
          · cases h
          · split at h
            · rename_i hfourth
              cases h
              exact ⟨_, rfl, .four hfirst (by simpa using hsecond) (by simpa using hthird) hfourth rfl⟩
            · cases h

theorem encoded_of_readChar {rest : Bytes} (h : readChar bytes = .char c rest) :
    ∃ front, bytes = front ++ rest ∧ Encoded c front := by
  cases bytes with
  | nil => cases h
  | cons first bytes =>
      simp only [readChar] at h
      split at h
      · rename_i hfirst
        cases h
        exact ⟨[first], rfl, .one hfirst rfl⟩
      · split at h
        · exact encoded_of_readTwo ‹_› h
        · split at h
          · exact encoded_of_readThree ‹_› h
          · split at h
            · exact encoded_of_readFour ‹_› h
            · cases h

theorem readChar_eq_char_iff {rest : Bytes} :
    readChar bytes = .char c rest ↔ bytes = String.utf8EncodeChar c ++ rest := by
  constructor
  · intro h
    obtain ⟨front, rfl, hencoded⟩ := encoded_of_readChar h
    rw [hencoded.eq_encodeChar]
  · rintro rfl
    exact (encoded_encodeChar c).readChar_append rest

/-! ## Where reading stops -/

/-- The bytes are the start of a code point. -/
def Starts (bytes : Bytes) : Prop :=
  bytes ≠ [] ∧ ∃ c, bytes <+: String.utf8EncodeChar c ∧ bytes ≠ String.utf8EncodeChar c

theorem Encoded.readChar_take (h : Encoded c bytes) (hpos : 0 < n) (hlt : n < bytes.length) :
    readChar (bytes.take n) = .incomplete := by
  cases h with
  | one hfirst hchar =>
      simp only [List.length_singleton] at hlt
      omega
  | two hfirst hsecond hchar =>
      simp only [List.length_cons, List.length_nil] at hlt
      obtain rfl : n = 1 := by omega
      exact readChar_two [] hfirst
  | @three first second _ hfirst hsecond hthird hchar =>
      simp only [List.length_cons, List.length_nil] at hlt
      obtain rfl | rfl : n = 1 ∨ n = 2 := by omega
      · exact readChar_three [] hfirst
      · refine (readChar_three [second] hfirst).trans ?_
        simp [readThree, hsecond]
  | @four first second third _ hfirst hsecond hthird hfourth hchar =>
      simp only [List.length_cons, List.length_nil] at hlt
      obtain rfl | rfl | rfl : n = 1 ∨ n = 2 ∨ n = 3 := by omega
      · exact readChar_four [] hfirst
      · refine (readChar_four [second] hfirst).trans ?_
        simp [readFour, hsecond]
      · refine (readChar_four [second, third] hfirst).trans ?_
        simp [readFour, hsecond, hthird]

theorem isContinuation_128 : isContinuation 128 = true := by decide

theorem exists_isSecondOfThree (hfirst : 0xE0 ≤ first.toNat ∧ first.toNat ≤ 0xEF) :
    ∃ second, isSecondOfThree first second = true := by
  by_cases h : first.toNat = 0xE0
  · exact ⟨0xA0, (isSecondOfThree_iff hfirst).mpr ⟨by decide, by decide, fun _ => by decide, fun _ => by omega⟩⟩
  · exact ⟨0x80, (isSecondOfThree_iff hfirst).mpr ⟨by decide, by decide, fun h' => absurd h' h, fun _ => by decide⟩⟩

theorem exists_isSecondOfFour (hfirst : 0xF0 ≤ first.toNat ∧ first.toNat ≤ 0xF4) :
    ∃ second, isSecondOfFour first second = true := by
  by_cases h : first.toNat = 0xF0
  · exact ⟨0x90, (isSecondOfFour_iff hfirst).mpr ⟨by decide, by decide, fun _ => by decide, fun _ => by omega⟩⟩
  · exact ⟨0x80, (isSecondOfFour_iff hfirst).mpr ⟨by decide, by decide, fun h' => absurd h' h, fun _ => by decide⟩⟩

theorem Encoded.starts (bytes more : Bytes) (h : Encoded c (bytes ++ more)) (hbytes : bytes ≠ []) (hmore : more ≠ []) :
    Starts bytes := by
  refine ⟨hbytes, c, ?_, ?_⟩
  · rw [h.eq_encodeChar]
    exact List.prefix_append _ _
  · rw [h.eq_encodeChar]
    intro heq
    exact hmore (List.self_eq_append_right.mp heq)

theorem starts_of_readTwo (hfirst : 0xC2 ≤ first.toNat ∧ first.toNat ≤ 0xDF) (h : readTwo first bytes = .incomplete) :
    Starts (first :: bytes) := by
  unfold readTwo at h
  split at h
  · exact Encoded.starts [first] [128] (.two hfirst isContinuation_128 rfl) (by simp) (by simp)
  · split at h
    · cases h
    · cases h

theorem starts_of_readThree (hfirst : 0xE0 ≤ first.toNat ∧ first.toNat ≤ 0xEF)
    (h : readThree first bytes = .incomplete) : Starts (first :: bytes) := by
  unfold readThree at h
  split at h
  · obtain ⟨second, hsecond⟩ := exists_isSecondOfThree hfirst
    exact Encoded.starts [first] [second, 128] (.three hfirst hsecond isContinuation_128 rfl) (by simp) (by simp)
  · rename_i second rest
    split at h
    · cases h
    · rename_i hsecond
      rw [Bool.not_eq_true, Bool.not_eq_false'] at hsecond
      split at h
      · exact Encoded.starts [first, second] [128] (.three hfirst hsecond isContinuation_128 rfl) (by simp) (by simp)
      · split at h
        · cases h
        · cases h

theorem starts_of_readFour (hfirst : 0xF0 ≤ first.toNat ∧ first.toNat ≤ 0xF4) (h : readFour first bytes = .incomplete) :
    Starts (first :: bytes) := by
  unfold readFour at h
  split at h
  · obtain ⟨second, hsecond⟩ := exists_isSecondOfFour hfirst
    exact Encoded.starts [first] [second, 128, 128]
      (.four hfirst hsecond isContinuation_128 isContinuation_128 rfl) (by simp) (by simp)
  · rename_i second rest
    split at h
    · cases h
    · rename_i hsecond
      rw [Bool.not_eq_true, Bool.not_eq_false'] at hsecond
      split at h
      · exact Encoded.starts [first, second] [128, 128]
          (.four hfirst hsecond isContinuation_128 isContinuation_128 rfl) (by simp) (by simp)
      · rename_i third rest
        split at h
        · cases h
        · rename_i hthird
          rw [Bool.not_eq_true, Bool.not_eq_false'] at hthird
          split at h
          · exact Encoded.starts [first, second, third] [128]
              (.four hfirst hsecond hthird isContinuation_128 rfl) (by simp) (by simp)
          · split at h
            · cases h
            · cases h

theorem readChar_eq_incomplete_iff (hne : bytes ≠ []) : readChar bytes = .incomplete ↔ Starts bytes := by
  constructor
  · intro h
    cases bytes with
    | nil => exact absurd rfl hne
    | cons first bytes =>
        simp only [readChar] at h
        split at h
        · cases h
        · split at h
          · exact starts_of_readTwo ‹_› h
          · split at h
            · exact starts_of_readThree ‹_› h
            · split at h
              · exact starts_of_readFour ‹_› h
              · cases h
  · rintro ⟨-, c, hfront, hproper⟩
    rw [List.prefix_iff_eq_take.mp hfront]
    apply (encoded_encodeChar c).readChar_take
    · exact List.length_pos_of_ne_nil hne
    · exact Nat.lt_of_le_of_ne hfront.length_le fun heq => hproper (hfront.eq_of_length heq)

/-- No more bytes make a code point of what starts none. -/
theorem not_encodeChar_of_invalid {len : Nat} (h : readChar bytes = .invalid len) (c : Char) (more : Bytes) :
    ¬ String.utf8EncodeChar c <+: bytes ++ more := by
  intro hfront
  have hread {rest : Bytes} (heq : bytes = String.utf8EncodeChar c ++ rest) : False := by
    rw [readChar_eq_char_iff.mpr heq] at h
    cases h
  rcases List.prefix_or_prefix_of_prefix hfront (List.prefix_append bytes more) with ⟨rest, heq⟩ | hstart
  · exact hread heq.symm
  · by_cases hnil : bytes = []
    · rw [hnil] at h
      cases h
    · by_cases heq : bytes = String.utf8EncodeChar c
      · exact hread (heq.trans (List.append_nil _).symm)
      · rw [(readChar_eq_incomplete_iff hnil).mpr ⟨hnil, c, hstart, heq⟩] at h
        cases h

/-! ## Texts -/

/-- Why a text ends where it does. -/
inductive Stop
  | done
  | incomplete
  | invalid (len : Nat)
  deriving DecidableEq

/-- Each turn takes a byte at least. -/
def decodeLoop : Nat → Bytes → List Char × Stop
  | 0, _ => ([], .done)
  | fuel + 1, bytes =>
      if bytes = [] then ([], .done)
      else match readChar bytes with
        | .char c rest => (c :: (decodeLoop fuel rest).1, (decodeLoop fuel rest).2)
        | .incomplete => ([], .incomplete)
        | .invalid len => ([], .invalid len)

def decode (bytes : Bytes) : List Char × Stop := decodeLoop bytes.length bytes

theorem encode_append (text more : List Char) : encode (text ++ more) = encode text ++ encode more :=
  List.flatMap_append

theorem encodeChar_ne_nil (c : Char) : String.utf8EncodeChar c ≠ [] := by
  intro h
  have hlength := String.length_utf8EncodeChar c
  rw [h] at hlength
  exact absurd hlength.symm (Nat.ne_of_gt (Char.utf8Size_pos c))

theorem decodeLoop_of_le (fuel more : Nat) (hfuel : bytes.length ≤ fuel) (hmore : fuel ≤ more) :
    decodeLoop more bytes = decodeLoop fuel bytes := by
  induction fuel generalizing bytes more with
  | zero =>
      obtain rfl : bytes = [] := List.length_eq_zero_iff.mp (Nat.le_zero.mp hfuel)
      cases more with
      | zero => rfl
      | succ more => rfl
  | succ fuel ih =>
      obtain ⟨more, rfl⟩ : ∃ rest, more = rest + 1 := ⟨more - 1, by omega⟩
      simp only [decodeLoop]
      split
      · rfl
      · split
        · rename_i c rest hread
          have hbytes := readChar_eq_char_iff.mp hread
          have hpos := List.length_pos_of_ne_nil (encodeChar_ne_nil c)
          rw [hbytes, List.length_append] at hfuel
          rw [ih more (by omega) (by omega)]
        · rfl
        · rfl

theorem decode_nil : decode [] = ([], .done) := rfl

theorem decode_of_ne_nil (hne : bytes ≠ []) :
    decode bytes = match readChar bytes with
      | .char c rest => (c :: (decode rest).1, (decode rest).2)
      | .incomplete => ([], .incomplete)
      | .invalid len => ([], .invalid len) := by
  obtain ⟨fuel, hfuel⟩ : ∃ fuel, bytes.length = fuel + 1 :=
    ⟨bytes.length - 1, by have := List.length_pos_of_ne_nil hne; omega⟩
  rw [decode, hfuel, decodeLoop, if_neg hne]
  cases hread : readChar bytes with
  | char c rest =>
      have hpos := List.length_pos_of_ne_nil (encodeChar_ne_nil c)
      have hlength : bytes.length = (String.utf8EncodeChar c).length + rest.length := by
        rw [readChar_eq_char_iff.mp hread, List.length_append]
      simp only [decode]
      rw [decodeLoop_of_le rest.length fuel (Nat.le_refl _) (by omega)]
  | incomplete => rfl
  | invalid len => rfl

theorem decode_encode_append (text : List Char) (bytes : Bytes) :
    decode (encode text ++ bytes) = (text ++ (decode bytes).1, (decode bytes).2) := by
  induction text with
  | nil => rfl
  | cons c text ih =>
      have hbytes : encode (c :: text) ++ bytes = String.utf8EncodeChar c ++ (encode text ++ bytes) := by
        rw [encode, List.flatMap_cons, List.append_assoc]
        rfl
      have hne : String.utf8EncodeChar c ++ (encode text ++ bytes) ≠ [] := by
        intro h
        exact encodeChar_ne_nil c (List.append_eq_nil_iff.mp h).1
      rw [hbytes, decode_of_ne_nil hne, (encoded_encodeChar c).readChar_append]
      dsimp only
      rw [ih]
      rfl

theorem decode_encode (text : List Char) : decode (encode text) = (text, .done) := by
  have h := decode_encode_append text []
  rw [List.append_nil, decode_nil, List.append_nil] at h
  exact h

/-- What follows the text is what made the reading stop there. -/
theorem exists_rest (bytes : Bytes) : ∃ rest, bytes = encode (decode bytes).1 ++ rest ∧
    match (decode bytes).2 with
    | .done => rest = []
    | .incomplete => Starts rest
    | .invalid len => readChar rest = .invalid len := by
  induction h : bytes.length using Nat.strong_induction_on generalizing bytes with
  | _ n ih =>
      by_cases hne : bytes = []
      · subst hne
        exact ⟨[], rfl, rfl⟩
      · rw [decode_of_ne_nil hne]
        cases hread : readChar bytes with
        | char c rest =>
            have hbytes := readChar_eq_char_iff.mp hread
            have hpos := List.length_pos_of_ne_nil (encodeChar_ne_nil c)
            have hlt : rest.length < n := by
              rw [← h, hbytes, List.length_append]
              omega
            obtain ⟨left, hleft, hstop⟩ := ih rest.length hlt rest rfl
            refine ⟨left, ?_, hstop⟩
            rw [encode, List.flatMap_cons, List.append_assoc, ← encode, ← hleft]
            exact hbytes
        | incomplete => exact ⟨bytes, rfl, (readChar_eq_incomplete_iff hne).mp hread⟩
        | invalid len => exact ⟨bytes, rfl, hread⟩

/-- The text is the longest whose encoding the bytes start with. -/
structure Longest (bytes : Bytes) (text : List Char) : Prop where
  starts : encode text <+: bytes
  longest : ∀ other, encode other <+: bytes → other <+: text

theorem longest_decode (bytes : Bytes) : Longest bytes (decode bytes).1 := by
  constructor
  · obtain ⟨rest, hrest, -⟩ := exists_rest bytes
    exact ⟨rest, hrest.symm⟩
  · rintro other ⟨rest, rfl⟩
    rw [decode_encode_append]
    exact List.prefix_append _ _

/-- Whatever is appended, the bytes are no encoding. -/
def Hopeless (bytes : Bytes) : Prop := ¬ ∃ more text, encode text = bytes ++ more

theorem hopeless_iff (bytes : Bytes) : Hopeless bytes ↔ ∃ len, (decode bytes).2 = .invalid len := by
  obtain ⟨rest, hrest, hstop⟩ := exists_rest bytes
  constructor
  · intro h
    cases hcase : (decode bytes).2 with
    | invalid len => exact ⟨len, rfl⟩
    | done =>
        rw [hcase] at hstop
        obtain rfl : rest = [] := hstop
        exact absurd ⟨[], (decode bytes).1, by simpa using hrest.symm⟩ h
    | incomplete =>
        rw [hcase] at hstop
        obtain ⟨-, c, ⟨more, hmore⟩, -⟩ := hstop
        refine absurd ⟨more, (decode bytes).1 ++ [c], ?_⟩ h
        conv_rhs => rw [hrest]
        rw [encode_append, List.append_assoc, hmore]
        simp [encode]
  · rintro ⟨len, hlen⟩ ⟨more, text, htext⟩
    rw [hlen] at hstop
    rw [hrest, List.append_assoc] at htext
    have hdecoded := decode_encode_append (decode bytes).1 (rest ++ more)
    rw [← htext, decode_encode] at hdecoded
    have hne : rest ++ more ≠ [] := by
      intro hnil
      rw [(List.append_eq_nil_iff.mp hnil).1] at hstop
      cases hstop
    -- What is left is an encoding too, so it starts with that of a code point.
    obtain ⟨left, hleft, hdone⟩ := exists_rest (rest ++ more)
    rw [← (Prod.mk.inj hdecoded).2] at hdone
    obtain rfl : left = [] := hdone
    cases hchars : (decode (rest ++ more)).1 with
    | nil =>
        rw [hchars] at hleft
        exact hne hleft
    | cons c chars =>
        rw [hchars, encode, List.flatMap_cons, List.append_nil] at hleft
        apply not_encodeChar_of_invalid hstop c more
        rw [hleft]
        exact List.prefix_append _ _

/-- The text that the bytes are the encoding of. -/
def text? (bytes : Bytes) : Option (List Char) :=
  match decode bytes with
  | (text, .done) => some text
  | _ => none

theorem text?_eq_some_iff {text : List Char} : text? bytes = some text ↔ bytes = encode text := by
  constructor
  · intro h
    obtain ⟨rest, hrest, hstop⟩ := exists_rest bytes
    rw [text?] at h
    split at h
    · rename_i read hread
      cases h
      rw [hread] at hrest hstop
      obtain rfl : rest = [] := hstop
      rwa [List.append_nil] at hrest
    · cases h
  · rintro rfl
    rw [text?, decode_encode]

theorem text?_encode (text : List Char) : text? (encode text) = some text := text?_eq_some_iff.mpr rfl

/-- An ASCII byte of an encoding is a character of its own. -/
theorem mem_of_mem_encode {text : List Char} {byte : UInt8} (hascii : byte.toNat < 0x80) (h : byte ∈ encode text) :
    Char.ofNat byte.toNat ∈ text := by
  obtain ⟨c, hc, hbyte⟩ := List.mem_flatMap.mp h
  have hencoded := encoded_encodeChar c
  generalize String.utf8EncodeChar c = bytes at hencoded hbyte
  cases hencoded with
  | one hfirst hchar =>
      rw [List.mem_singleton.mp hbyte, hchar]
      exact hc
  | two hfirst hsecond hchar =>
      have hcontinues := isContinuation_iff.mp hsecond
      simp only [List.mem_cons, List.not_mem_nil, or_false] at hbyte
      rcases hbyte with rfl | rfl <;> omega
  | three hfirst hsecond hthird hchar =>
      have hbound := (isSecondOfThree_iff hfirst).mp hsecond
      have hcontinues := isContinuation_iff.mp hthird
      simp only [List.mem_cons, List.not_mem_nil, or_false] at hbyte
      rcases hbyte with rfl | rfl | rfl <;> omega
  | four hfirst hsecond hthird hfourth hchar =>
      have hbound := (isSecondOfFour_iff hfirst).mp hsecond
      have hcontinues := isContinuation_iff.mp hthird
      have hcontinues' := isContinuation_iff.mp hfourth
      simp only [List.mem_cons, List.not_mem_nil, or_false] at hbyte
      rcases hbyte with rfl | rfl | rfl | rfl <;> omega

theorem Starts.length_le (h : Starts bytes) : bytes.length ≤ 3 := by
  obtain ⟨-, c, hfront, hproper⟩ := h
  have hlength : bytes.length ≠ (String.utf8EncodeChar c).length := fun heq => hproper (hfront.eq_of_length heq)
  have hle := hfront.length_le
  have hfour := Char.utf8Size_le_four c
  rw [String.length_utf8EncodeChar] at hlength hle
  omega

theorem decode_of_starts (h : Starts bytes) : decode bytes = ([], .incomplete) := by
  rw [decode_of_ne_nil h.1, (readChar_eq_incomplete_iff h.1).mpr h]

/-! ## Lossy reading -/

def decodeLossyLoop : Nat → Bytes → List Char
  | 0, _ => []
  | fuel + 1, bytes =>
      if bytes = [] then []
      else match readChar bytes with
        | .char c rest => c :: decodeLossyLoop fuel rest
        | .incomplete => ['\uFFFD']
        | .invalid len => '\uFFFD' :: decodeLossyLoop fuel (bytes.drop len)

/-- What is no character is read as a replacement character. -/
def decodeLossy (bytes : Bytes) : List Char := decodeLossyLoop bytes.length bytes

/-- An ASCII character that is read is one of the bytes. -/
theorem mem_of_mem_decodeLossy (hascii : c.val.toNat < 0x80) (h : c ∈ decodeLossy bytes) :
    UInt8.ofNat c.val.toNat ∈ bytes := by
  have hreplacement : c ≠ '\uFFFD' := by
    rintro rfl
    revert hascii
    decide
  have hloop (fuel : Nat) (bytes : Bytes) (h : c ∈ decodeLossyLoop fuel bytes) : UInt8.ofNat c.val.toNat ∈ bytes := by
    induction fuel generalizing bytes with
    | zero => cases h
    | succ fuel ih =>
        rw [decodeLossyLoop] at h
        split at h
        · cases h
        · split at h
          next read rest hread =>
            have hbytes := readChar_eq_char_iff.mp hread
            rw [hbytes]
            rcases List.mem_cons.mp h with rfl | hmem
            · refine List.mem_append_left _ ?_
              have hone : c.val.toNat ≤ 127 := Nat.le_of_lt_succ hascii
              rw [String.utf8EncodeChar, if_pos hone]
              exact List.mem_singleton_self _
            · exact List.mem_append_right _ (ih rest hmem)
          next => exact absurd (List.mem_singleton.mp h) hreplacement
          next len hread =>
            rcases List.mem_cons.mp h with heq | hmem
            · exact absurd heq hreplacement
            · exact List.mem_of_mem_drop (ih _ hmem)
  exact hloop _ bytes h

end Utf8
