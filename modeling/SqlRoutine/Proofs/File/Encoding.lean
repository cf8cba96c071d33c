import Mathlib.Tactic
import SqlRoutine.File.Encoding

/-! # Texts in files

The four ways in which a file can hold a text (`Storage`), and the three kinds of line end. **A file is
decoded to the text that it holds** (`decode_bytes`), and with its line ends unified it is the text
that was written line by line (`unifyLineEnds_withLineEnds`).

The decoders are taken character by character: the bytes of one character are read, whatever follows
them (`decodeUtf8From_encode`, `decodeUtf16From_encode`). Which encoding is announced and whether there
is a mark then follows from the decoder itself, since the bytes of a mark would decode to something
else. -/

namespace SqlRoutine.Encoding

open List

/-! ### UTF-8, character by character -/

theorem toNat_ofNat_byte {n : ℕ} (h : n < 256) : (UInt8.ofNat n).toNat = n :=
  UInt8.toNat_ofNat_of_lt' h

theorem lead_two : ∀ n < 0x20, 2 ≤ n → continuations? (UInt8.ofNat (n + 0xC0)) = some (1, 0x80, 0xBF) ∧
    leadingBits (UInt8.ofNat (n + 0xC0)) 1 = n := by decide

/-- The first byte of a sequence of three: the range of the second byte leaves out what would be a
sequence of two, and the surrogates. -/
theorem lead_three : ∀ n < 0x10, continuations? (UInt8.ofNat (n + 0xE0)) =
      some (2, if n = 0 then 0xA0 else 0x80, if n = 13 then 0x9F else 0xBF) ∧
    leadingBits (UInt8.ofNat (n + 0xE0)) 2 = n := by decide

/-- The first byte of a sequence of four: the range of the second byte leaves out what would be a
sequence of three, and what is above the last code point. -/
theorem lead_four : ∀ n < 5, continuations? (UInt8.ofNat (n + 0xF0)) =
      some (3, if n = 0 then 0x90 else 0x80, if n = 4 then 0x8F else 0xBF) ∧
    leadingBits (UInt8.ofNat (n + 0xF0)) 3 = n := by decide

theorem decodeUtf8From_lead {position left n : ℕ} {b low high : UInt8} {bs : Bytes}
    (h : continuations? b = some (left + 1, low, high) ∧ leadingBits b (left + 1) = n) :
    decodeUtf8From position none (b :: bs) =
      decodeUtf8From (position + 1) (some ⟨b, 1, n, left + 1, low, high⟩) bs := by
  rw [decodeUtf8From, h.1, ← h.2]
  rfl

section Continuation

variable {position read point left m : ℕ} {first low high : UInt8} {bs : Bytes}

/-- A byte with the six bits `m` that is in the range for it is taken. -/
theorem decodeUtf8From_taken (hm : m < 0x40) (hlow : low.toNat ≤ m + 0x80)
    (hhigh : m + 0x80 ≤ high.toNat) :
    decodeUtf8From position (some ⟨first, read, point, left, low, high⟩)
        (UInt8.ofNat (m + 0x80) :: bs) =
      if left = 1 then (decodeUtf8From (position + 1) none bs).cons (Char.ofNat (point * 0x40 + m))
      else
        decodeUtf8From (position + 1)
          (some ⟨first, read + 1, point * 0x40 + m, left - 1, 0x80, 0xBF⟩) bs := by
  have hbyte : (UInt8.ofNat (m + 0x80)).toNat = m + 0x80 := toNat_ofNat_byte (by omega)
  have hrange : (UInt8.ofNat (m + 0x80) < low || high < UInt8.ofNat (m + 0x80)) = false := by
    rw [Bool.or_eq_false_iff, decide_eq_false_iff_not, decide_eq_false_iff_not, UInt8.lt_iff_toNat_lt,
      UInt8.lt_iff_toNat_lt, hbyte]
    omega
  have hbits : (m + 0x80) % 0x40 = m := by omega
  rw [decodeUtf8From, hrange, if_neg Bool.false_ne_true, hbyte, hbits]

theorem decodeUtf8From_further (hm : m < 0x40) (hlow : low.toNat ≤ m + 0x80)
    (hhigh : m + 0x80 ≤ high.toNat) :
    decodeUtf8From position (some ⟨first, read, point, left + 2, low, high⟩)
        (UInt8.ofNat (m + 0x80) :: bs) =
      decodeUtf8From (position + 1)
        (some ⟨first, read + 1, point * 0x40 + m, left + 1, 0x80, 0xBF⟩) bs := by
  rw [decodeUtf8From_taken hm hlow hhigh, if_neg (by omega)]
  rfl

/-- The last byte of a sequence; it has the full range in every sequence but those of two bytes, where
it is also the second. -/
theorem decodeUtf8From_last (hm : m < 0x40) :
    decodeUtf8From position (some ⟨first, read, point, 1, 0x80, 0xBF⟩)
        (UInt8.ofNat (m + 0x80) :: bs) =
      (decodeUtf8From (position + 1) none bs).cons (Char.ofNat (point * 0x40 + m)) := by
  have hlow : (0x80 : UInt8).toNat ≤ m + 0x80 := Nat.le_add_left _ m
  have hhigh : m + 0x80 ≤ (0xBF : UInt8).toNat := by change m + 0x80 ≤ 0xBF; omega
  rw [decodeUtf8From_taken hm hlow hhigh, if_pos rfl]

end Continuation

/-- **The bytes of one character are read off the front.** -/
theorem decodeUtf8From_encode (c : Char) (position : ℕ) (bs : Bytes) :
    ∃ next, decodeUtf8From position none (String.utf8EncodeChar c ++ bs) =
      (decodeUtf8From next none bs).cons c := by
  have hvalid : c.toNat < 0xD800 ∨ 0xDFFF < c.toNat ∧ c.toNat < 0x110000 := c.valid
  have hchar : ∀ n, n = c.toNat → Char.ofNat n = c := fun n hn => by rw [hn, Char.ofNat_toNat]
  have hlow : (0x80 : UInt8).toNat = 0x80 := rfl
  have hhigh : (0xBF : UInt8).toNat = 0xBF := rfl
  unfold String.utf8EncodeChar
  rw [Char.toNat_val]
  generalize c.toNat = v at hvalid hchar ⊢
  dsimp only
  split_ifs with hone htwo hthree
  · -- one byte
    have hbyte : (UInt8.ofNat v).toNat = v := toNat_ofNat_byte (by omega)
    have hfirst : continuations? (UInt8.ofNat v) = some (0, 0, 0) := by
      rw [continuations?, if_pos]
      rw [UInt8.lt_iff_toNat_lt, hbyte]
      exact Nat.lt_succ_of_le hone
    refine ⟨position + 1, ?_⟩
    rw [singleton_append, decodeUtf8From, hfirst, hbyte, hchar v rfl]
    rfl
  · -- two bytes
    have hlead := lead_two (v / 64 % 0x20) (by omega) (by omega)
    refine ⟨position + 1 + 1, ?_⟩
    rw [cons_append, singleton_append, decodeUtf8From_lead hlead,
      decodeUtf8From_last (by omega), hchar _ (by omega)]
  · -- three bytes
    have hlead := lead_three (v / 4096 % 0x10) (by omega)
    refine ⟨position + 1 + 1 + 1, ?_⟩
    rw [cons_append, cons_append, singleton_append, decodeUtf8From_lead hlead,
      decodeUtf8From_further (by omega) ?low ?high, decodeUtf8From_last (by omega),
      hchar _ (by omega)]
    case low => split_ifs <;> simp; omega
    case high => split_ifs <;> simp <;> omega
  · -- four bytes
    have hlead := lead_four (v / 262144 % 0x08) (by omega)
    refine ⟨position + 1 + 1 + 1 + 1, ?_⟩
    rw [cons_append, cons_append, cons_append, singleton_append,
      decodeUtf8From_lead hlead, decodeUtf8From_further (by omega) ?low ?high,
      decodeUtf8From_further (by omega) (by omega) (by omega), decodeUtf8From_last (by omega),
      hchar _ (by omega)]
    case low => split_ifs <;> simp; omega
    case high => split_ifs <;> simp <;> omega

/-- **UTF-8 is decoded to the text that was encoded.** -/
theorem decodeUtf8From_encodeUtf8 (t : Text) (position : ℕ) :
    decodeUtf8From position none (encodeUtf8 t) = .complete t := by
  induction t generalizing position with
  | nil => rfl
  | cons c t ih =>
    obtain ⟨next, hnext⟩ := decodeUtf8From_encode c position (encodeUtf8 t)
    rw [encodeUtf8, flatMap_cons, ← encodeUtf8, hnext, ih]
    rfl

/-! ### UTF-16, character by character -/

/-- The units of a character: itself, or a pair for one beyond the first 65536. -/
def units (c : Char) : List ℕ :=
  if c.toNat < 0x10000 then [c.toNat]
  else [0xD800 + (c.toNat - 0x10000) / 0x400, 0xDC00 + (c.toNat - 0x10000) % 0x400]

/-- The two bytes of a unit. -/
def unitBytes (encoding : Encoding) (u : ℕ) : Bytes :=
  match encoding with
  | .utf16be => [UInt8.ofNat (u / 0x100), UInt8.ofNat (u % 0x100)]
  | _ => [UInt8.ofNat (u % 0x100), UInt8.ofNat (u / 0x100)]

/-- The UTF-16 encoding of a text. -/
def encodeUtf16 (encoding : Encoding) (t : Text) : Bytes :=
  t.flatMap fun c => (units c).flatMap (unitBytes encoding)

theorem unitBytes_eq (encoding : Encoding) {u : ℕ} (hu : u < 0x10000) :
    ∃ a b, unitBytes encoding u = [a, b] ∧ unit encoding a b = u := by
  have hdiv : (UInt8.ofNat (u / 0x100)).toNat = u / 0x100 := toNat_ofNat_byte (by omega)
  have hmod : (UInt8.ofNat (u % 0x100)).toNat = u % 0x100 := toNat_ofNat_byte (by omega)
  cases encoding <;> exact ⟨_, _, rfl, by simp only [unit, hdiv, hmod]; omega⟩

/-- **The bytes of one character are read off the front.** -/
theorem decodeUtf16From_encode (encoding : Encoding) (c : Char) (position : ℕ) (bs : Bytes) :
    ∃ next, decodeUtf16From encoding position ((units c).flatMap (unitBytes encoding) ++ bs) =
      (decodeUtf16From encoding next bs).cons c := by
  have hvalid : c.toNat < 0xD800 ∨ 0xDFFF < c.toNat ∧ c.toNat < 0x110000 := c.valid
  have hchar : ∀ n, n = c.toNat → Char.ofNat n = c := fun n hn => by rw [hn, Char.ofNat_toNat]
  unfold units
  generalize c.toNat = v at hvalid hchar ⊢
  split_ifs with hone
  · -- one unit, which is neither half of a pair
    obtain ⟨a, b, hbytes, hunit⟩ := unitBytes_eq encoding hone
    have hlow : isLow v = false := by simp only [isLow]; simp; omega
    have hhigh : isHigh v = false := by simp only [isHigh]; simp; omega
    refine ⟨position + 2, ?_⟩
    rw [flatMap_singleton, hbytes, cons_append, singleton_append,
      decodeUtf16From.eq_def]
    simp only [hunit, hlow, hhigh, Bool.false_eq_true, if_false]
    rw [hchar v rfl]
  · -- a pair
    obtain ⟨a, b, hfirst, hhighUnit⟩ :=
      unitBytes_eq encoding (u := 0xD800 + (v - 0x10000) / 0x400) (by omega)
    obtain ⟨a', b', hsecond, hlowUnit⟩ :=
      unitBytes_eq encoding (u := 0xDC00 + (v - 0x10000) % 0x400) (by omega)
    have hhigh : isLow (0xD800 + (v - 0x10000) / 0x400) = false ∧
        isHigh (0xD800 + (v - 0x10000) / 0x400) := by simp only [isLow, isHigh]; simp; omega
    have hlow : isLow (0xDC00 + (v - 0x10000) % 0x400) := by simp only [isLow]; simp; omega
    refine ⟨position + 4, ?_⟩
    rw [flatMap_cons, flatMap_singleton, hfirst, hsecond]
    simp only [cons_append, nil_append, decodeUtf16From, hhighUnit, hlowUnit, hhigh.1,
      hhigh.2, hlow, Bool.false_eq_true, if_false, if_true]
    rw [hchar _ (by omega)]

/-- **UTF-16 is decoded to the text that was encoded.** -/
theorem decodeUtf16From_encodeUtf16 (encoding : Encoding) (t : Text) (position : ℕ) :
    decodeUtf16From encoding position (encodeUtf16 encoding t) = .complete t := by
  induction t generalizing position with
  | nil => rfl
  | cons c t ih =>
    obtain ⟨next, hnext⟩ := decodeUtf16From_encode encoding c position (encodeUtf16 encoding t)
    rw [encodeUtf16, flatMap_cons, ← encodeUtf16, hnext, ih]
    rfl

/-! ### Files -/

/-- The byte order mark of an encoding. -/
def mark : Encoding → Bytes
  | .utf8 => [0xEF, 0xBB, 0xBF]
  | .utf16le => [0xFF, 0xFE]
  | .utf16be => [0xFE, 0xFF]

/-- The bytes of a text in an encoding, without a mark. -/
def encode : Encoding → Text → Bytes
  | .utf8, t => encodeUtf8 t
  | encoding, t => encodeUtf16 encoding t

/-- **How a file holds a text**: in UTF-8 without a mark, or in some encoding after its mark. -/
inductive Storage where
  | unmarked
  | marked (encoding : Encoding)

/-- The bytes of a file that holds a text. -/
def Storage.bytes : Storage → Text → Bytes
  | unmarked, t => encodeUtf8 t
  | marked encoding, t => mark encoding ++ encode encoding t

theorem announced_of_decodeUtf8 {bytes : Bytes} {t : Text} (h : decodeUtf8 bytes = .complete t) :
    announced bytes = .utf8 := by
  unfold announced
  split
  · simp [decodeUtf8, decodeUtf8From, continuations?] at h
  · simp [decodeUtf8, decodeUtf8From, continuations?] at h
  · rfl

theorem decodeMarkedUtf8_of_decodeUtf8 {bytes : Bytes} {t : Text}
    (h : decodeUtf8 bytes = .complete t) (ht : t.head? ≠ some '\uFEFF') :
    decodeMarkedUtf8 bytes = .complete t := by
  unfold decodeMarkedUtf8
  split
  · next rest =>
    -- the mark decodes to the character that the text does not start with
    have hmark : decodeUtf8 (0xEF :: 0xBB :: 0xBF :: rest) =
        (decodeUtf8From 3 none rest).cons '\uFEFF' := rfl
    rw [hmark] at h
    cases hrest : decodeUtf8From 3 none rest with
    | complete u =>
      rw [hrest] at h
      cases h
      exact absurd rfl ht
    | invalid fault => rw [hrest] at h; cases h
    | cut u fault => rw [hrest] at h; cases h
  · cases h
  · cases h
  · exact h

/-- **A file is decoded to the text that it holds**, whichever way it is held. -/
theorem decode_bytes (storage : Storage) {t : Text} (ht : t.head? ≠ some '\uFEFF') :
    decode (announced (storage.bytes t)) (storage.bytes t) = .complete t := by
  cases storage with
  | unmarked =>
    have hplain : decodeUtf8 (encodeUtf8 t) = .complete t := decodeUtf8From_encodeUtf8 t 0
    rw [Storage.bytes, announced_of_decodeUtf8 hplain]
    exact decodeMarkedUtf8_of_decodeUtf8 hplain ht
  | marked encoding =>
    cases encoding with
    | utf8 => exact decodeUtf8From_encodeUtf8 t 0
    | utf16le => exact decodeUtf16From_encodeUtf16 .utf16le t 2
    | utf16be => exact decodeUtf16From_encodeUtf16 .utf16be t 2

end SqlRoutine.Encoding

namespace SqlRoutine.Text

open List

/-! ### Line ends -/

/-- How the lines of a file end. -/
inductive LineEnd where
  | feed
  | returnFeed
  | return_

/-- The characters of a line end. -/
def LineEnd.text : LineEnd → Text
  | feed => ['\n']
  | returnFeed => ['\r', '\n']
  | return_ => ['\r']

/-- A text with its line feeds written as line ends of one kind. -/
def withLineEnds (lineEnd : LineEnd) (t : Text) : Text :=
  t.flatMap fun c => if c = '\n' then lineEnd.text else [c]

theorem unifyLineEnds_cons {c : Char} (hc : c ≠ '\r') (t : Text) :
    unifyLineEnds (c :: t) = c :: unifyLineEnds t := by
  rw [unifyLineEnds] <;> simp [hc]

theorem unifyLineEnds_return {t : Text} (ht : t.head? ≠ some '\n') :
    unifyLineEnds ('\r' :: t) = '\n' :: unifyLineEnds t := by
  rw [unifyLineEnds]
  intro rest hrest
  simp [hrest] at ht

theorem head?_withLineEnds (lineEnd : LineEnd) {t : Text} (ht : t.head? ≠ some '\uFEFF') :
    (withLineEnds lineEnd t).head? ≠ some '\uFEFF' := by
  cases t with
  | nil => simp [withLineEnds]
  | cons c t =>
    rw [withLineEnds, flatMap_cons]
    split_ifs
    · cases lineEnd <;> simp [LineEnd.text]
    · simpa using ht

theorem feed_not_mem_withLineEnds_return (t : Text) : '\n' ∉ withLineEnds .return_ t := by
  intro h
  obtain ⟨c, -, hc⟩ := mem_flatMap.1 h
  split_ifs at hc with hfeed
  · simp [LineEnd.text] at hc
  · exact hfeed (mem_singleton.1 hc).symm

/-- **Unifying the line ends gives the text back.** -/
theorem unifyLineEnds_withLineEnds (lineEnd : LineEnd) {t : Text} (ht : '\r' ∉ t) :
    unifyLineEnds (withLineEnds lineEnd t) = t := by
  induction t with
  | nil => rfl
  | cons c t ih =>
    obtain ⟨hc, ht⟩ := ne_and_not_mem_of_not_mem_cons ht
    have hrest := ih ht
    rw [withLineEnds, flatMap_cons, ← withLineEnds]
    split_ifs with hfeed
    · subst hfeed
      cases lineEnd with
      | feed => rw [LineEnd.text, singleton_append, unifyLineEnds_cons (by decide), hrest]
      | returnFeed =>
        rw [LineEnd.text, cons_append, singleton_append, unifyLineEnds, hrest]
      | return_ =>
        rw [LineEnd.text, singleton_append, unifyLineEnds_return, hrest]
        exact fun h => feed_not_mem_withLineEnds_return t (mem_of_head? h)
    · rw [singleton_append, unifyLineEnds_cons (Ne.symm hc), hrest]

end SqlRoutine.Text
