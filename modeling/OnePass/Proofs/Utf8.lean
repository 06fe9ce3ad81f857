import Mathlib.Algebra.Order.Ring.Nat
import OnePass.Text.Ascii
import OnePass.Text.Utf8

/-! # Reading text back

Decoding the bytes of a text gives the text. The machine takes one encoded character at a time, in the
number of steps that the character's code point asks for. Of bytes that encode nothing it shows no
character of ASCII that is not there. -/
namespace OnePass

open UInt8 List Bytes
open String hiding append_assoc

variable {bytes : Bytes}

namespace Ascii

theorem toNat_charOfNat (valid : n.isValidChar) : (Char.ofNat n).toNat = n := by
  rw [Char.ofNat,dif_pos valid]
  rfl

theorem toNat_char (b : UInt8) : (char b).toNat = b.toNat :=
  toNat_charOfNat (.inl (Nat.lt_trans b.toNat_lt (by decide)))

theorem eq_of_char (same : char b = c) : b = UInt8.ofNat c.toNat := by
  rw [← same,toNat_char,UInt8.ofNat_toNat]

end Ascii

namespace Utf8

theorem toNat_ofNat_of_lt (bound : n < 256) : (ofNat n).toNat = n := by
  exact Nat.mod_eq_of_lt bound

theorem pieces_inside (above : low.toNat ≤ n) (below : n ≤ high.toNat) (rest : Bytes) (out : List (Option Char)) :
    pieces (.inside owed low high code) (ofNat n :: rest) out =
      if owed ≤ 1 then pieces .start rest (some (Char.ofNat (code * 64 + (n - 0x80))) :: out)
      else pieces (.inside (owed - 1) 0x80 0xbf (code * 64 + (n - 0x80))) rest out := by
  have same := toNat_ofNat_of_lt (Nat.lt_of_le_of_lt below high.toNat_lt)
  have inside : (low ≤ ofNat n && ofNat n ≤ high) = true := by
    simp only [Bool.and_eq_true,decide_eq_true_eq,le_iff_toNat_le,same]
    exact ⟨above,below⟩
  rw [pieces,next,if_pos inside,same]
  by_cases last : owed ≤ 1 <;> simp only [last,↓reduceIte,Step.settle]

theorem first_one (bound : n < 0x80) : first (ofNat n) = .char (Char.ofNat n) := by
  have same := toNat_ofNat_of_lt (Nat.lt_trans bound (by decide))
  rw [first,if_pos (by rwa [lt_iff_toNat_lt,same]),same]

/-- The first of two, three and four bytes. The ranges of the second one leave out code points that fewer
bytes hold, and surrogates. -/
theorem first_more : (∀ n < 0xe0, 0xc2 ≤ n → first (ofNat n) = .more (.inside 1 0x80 0xbf (n - 0xc0))) ∧
    (∀ n < 0xf0, 0xe0 ≤ n → first (ofNat n) =
      .more (.inside 2 (if n = 0xe0 then 0xa0 else 0x80) (if n = 0xed then 0x9f else 0xbf) (n - 0xe0))) ∧
    (∀ n < 0xf5, 0xf0 ≤ n → first (ofNat n) =
      .more (.inside 3 (if n = 0xf0 then 0x90 else 0x80) (if n = 0xf4 then 0x8f else 0xbf) (n - 0xf0))) := by
  decide +kernel

theorem ofNat_eq (same : n = c.val.toNat) : Char.ofNat n = c := by
  rw [same]
  exact Char.ofNat_toNat c

/-- The machine reads an encoded character and is at the start of the next one. -/
theorem pieces_encodeChar (c : Char) (rest : Bytes) (out : List (Option Char)) :
    pieces .start (utf8EncodeChar c ++ rest) out = pieces .start rest (some c :: out) := by
  have valid : c.val.toNat < 0xd800 ∨ 0xdfff < c.val.toNat ∧ c.val.toNat < 0x110000 := c.valid
  have code : c.toNat = c.val.toNat := rfl
  have more {b : UInt8} {state : State} (begun : first b = .more state) rest :
      pieces .start (b :: rest) out = pieces state rest out := by
    rw [pieces,begun]
    rfl
  simp only [utf8EncodeChar]
  split
  next one =>
    rw [singleton_append,pieces,first_one (by omega),ofNat_eq rfl]
    rfl
  next =>
    split
    next two =>
      simp only [cons_append,nil_append]
      rw [more (first_more.1 _ (by omega) (by omega)),
        pieces_inside (by simp) (by simp; omega),if_pos (by omega),ofNat_eq (c := c) (by omega)]
    next =>
      split
      next three =>
        simp only [cons_append,nil_append]
        rw [more (first_more.2.1 _ (by omega) (by omega)),
          pieces_inside (by split <;> simp; omega) (by split <;> (simp; omega)),if_neg (by omega),
          pieces_inside (by simp) (by simp; omega),if_pos (by omega),ofNat_eq (c := c) (by omega)]
      next four =>
        simp only [cons_append,nil_append]
        rw [more (first_more.2.2 _ (by omega) (by omega)),
          pieces_inside (by split <;> simp; omega) (by split <;> (simp; omega)),if_neg (by omega),
          pieces_inside (by simp) (by simp; omega),if_neg (by omega),
          pieces_inside (by simp) (by simp; omega),if_pos (by omega),ofNat_eq (c := c) (by omega)]

theorem pieces_flatMap (chars : List Char) (out : List (Option Char)) :
    pieces .start (chars.flatMap utf8EncodeChar) out = out.reverse ++ chars.map some := by
  induction chars generalizing out with
  | nil => simp [pieces]
  | cons c rest ih =>
    rw [flatMap_cons,pieces_encodeChar,ih]
    simp

theorem toList_loop (bytes : ByteArray) (read : List UInt8) (left i : Nat) (room : i + left = bytes.size) :
    ByteArray.toList.loop bytes i read = read.reverse ++ bytes.data.toList.drop i := by
  have size : bytes.data.toList.length = bytes.size := rfl
  induction left generalizing i read with
  | zero =>
    rw [ByteArray.toList.loop,if_neg (by omega),drop_eq_nil_of_le (by omega),append_nil]
  | succ left ih =>
    have bound : i < bytes.data.toList.length := by omega
    rw [ByteArray.toList.loop,if_pos (by omega),ih _ _ (by omega),drop_eq_getElem_cons bound]
    have byte : bytes.get! i = bytes.data.toList[i] := by
      exact getElem!_pos bytes.data i bound
    rw [reverse_cons,append_assoc,singleton_append,byte]

theorem ofString_eq (text : String) : ofString text = text.toList.flatMap utf8EncodeChar := by
  have bytes : text.toByteArray = text.toList.utf8Encode := by
    rw [← toByteArray_ofList,ofList_toList]
  rw [ofString,toUTF8,bytes,ByteArray.toList,toList_loop _ _ _ 0 (Nat.zero_add _)]
  exact toList_data_toByteArray

/-- Decoding gives back the text. -/
theorem decode?_ofString (text : String) : decode? (ofString text) = some text := by
  simp [decode?,ofString_eq,pieces_flatMap]

/-! ## Characters behind ASCII -/

theorem encode_ascii (small : c.toNat < 0x80) : utf8EncodeChar c = [ofNat c.toNat] := by
  have code : c.toNat = c.val.toNat := rfl
  rw [utf8EncodeChar,if_pos (by omega)]
  rfl

theorem encode_high (large : 0x80 ≤ c.toNat) :
    utf8EncodeChar c ≠ [] ∧ ∀ b ∈ utf8EncodeChar c, 0x80 ≤ b.toNat := by
  have code : c.toNat = c.val.toNat := rfl
  have byte {n : Nat} (above : 0x80 ≤ n) (below : n < 256) : 0x80 ≤ (ofNat n).toNat := by
    rwa [toNat_ofNat_of_lt below]
  simp only [utf8EncodeChar]
  split_ifs
  · omega
  all_goals
    refine ⟨by simp,?_⟩
    simp only [forall_mem_cons,not_mem_nil,false_imp_iff,implies_true,and_true]
    and_intros <;> exact byte (by omega) (by omega)

/-- The code points that bytes to come can still make, whichever they are, are characters and none of ASCII. -/
def State.IsHigh : State → Prop
  | .start => True
  | .inside owed low high code =>
    let least := (code * 64 + (low.toNat - 0x80)) * 64 ^ (owed - 1)
    let bound := (code * 64 + (high.toNat - 0x80) + 1) * 64 ^ (owed - 1)
    1 ≤ owed ∧ owed ≤ 3 ∧ 0x80 ≤ least ∧ (bound ≤ 0xd800 ∨ 0xe000 ≤ least ∧ bound ≤ 0x110000)

instance : DecidablePred State.IsHigh
  | .start => inferInstanceAs (Decidable True)
  | .inside .. => inferInstanceAs (Decidable (_ ∧ _))

theorem first_sound : ∀ n < 256, (match first (UInt8.ofNat n) with
    | .char c => c == Char.ofNat n
    | .more state => decide (state.IsHigh ∧ state ≠ .start)
    | .illFormed => true) = true := by
  decide +kernel

theorem first_high (more : first b = .more state) : state.IsHigh ∧ state ≠ .start := by
  have sound := first_sound b.toNat b.toNat_lt
  rw [UInt8.ofNat_toNat,more] at sound
  exact of_decide_eq_true sound

theorem first_ascii (whole : first b = .char c) : c = Ascii.char b := by
  have sound := first_sound b.toNat b.toNat_lt
  rw [UInt8.ofNat_toNat,whole] at sound
  exact eq_of_beq sound

theorem next_high (holds : (State.inside owed low high code).IsHigh) : match next owed low high code b with
    | .char c => 0x80 ≤ c.toNat
    | .more state => state.IsHigh ∧ state ≠ .start
    | .illFormed => True := by
  obtain ⟨some,most,high,character⟩ := holds
  unfold next
  split_ifs with inside last
  · simp only [Bool.and_eq_true,decide_eq_true_eq,le_iff_toNat_le] at inside
    obtain rfl : owed = 1 := by omega
    dsimp only
    rw [Ascii.toNat_charOfNat (by simp only [Nat.isValidChar]; omega)]
    omega
  · simp only [Bool.and_eq_true,le_iff_toNat_le] at inside
    obtain rfl | rfl : owed = 2 ∨ owed = 3 := by omega
    all_goals
      simp only [State.IsHigh] at *
      simp at *
      omega
  · trivial

/-- A character of ASCII is one of a class of bytes. -/
def Fits (p : UInt8 → Bool) (c : Char) : Prop := c.toNat < 0x80 → p (ofNat c.toNat)

section Class

theorem fits_char (holds : p b) : Fits p (Ascii.char b) := by
  intro _
  rwa [Ascii.toNat_char,UInt8.ofNat_toNat]

theorem fits_high (high : 0x80 ≤ c.toNat) : Fits p c := fun small => absurd high (by omega)

theorem settle_fits (holds : p b) (out : List (Option Char)) (all : ∀ c, some c ∈ out → Fits p c) :
    ((first b).settle out).1.IsHigh ∧ ∀ c, some c ∈ ((first b).settle out).2 → Fits p c := by
  cases step : first b with
  | char c => exact ⟨trivial,by simpa [Step.settle,first_ascii step,fits_char holds] using all⟩
  | more state => exact ⟨(first_high step).1,all⟩
  | illFormed => exact ⟨trivial,by simpa [Step.settle] using all⟩

theorem pieces_fits (state : State) (high : state.IsHigh) (holds : ∀ b ∈ bytes, p b)
    (all : ∀ c, some c ∈ out → Fits p c) : ∀ c, some c ∈ pieces state bytes out → Fits p c := by
  induction bytes generalizing state out with
  | nil => cases state <;> simpa [pieces] using all
  | cons b rest ih =>
    obtain ⟨here,rest⟩ := forall_mem_cons.mp holds
    cases state with
    | start =>
      obtain ⟨high,all⟩ := settle_fits here out all
      exact ih _ high rest all
    | inside owed low top code =>
      have step := next_high (b := b) high
      rw [pieces]
      cases found : next owed low top code b with
      | char c =>
        rw [found] at step
        exact ih .start trivial rest (by simpa using ⟨fits_high step,all⟩)
      | more state =>
        rw [found] at step
        exact ih state step.1 rest all
      | illFormed =>
        obtain ⟨high,all⟩ := settle_fits here (none :: out) (by simpa using all)
        exact ih _ high rest all

theorem lossyChars_fits (holds : ∀ b ∈ bytes, p b) : ∀ c ∈ lossyChars bytes, Fits p c := by
  intro c member
  obtain ⟨piece,found,rfl⟩ := mem_map.mp member
  cases piece with
  | none => exact fits_high (by decide)
  | some c => exact pieces_fits .start trivial holds (by simp) c found

theorem lossyChars_ne_nil (b : UInt8) (rest : Bytes) : lossyChars (b :: rest) ≠ [] := by
  -- a step leaves something to show, or a character that is not whole
  have settled (step : Step) (begun : ∀ state, step = .more state → state ≠ .start) (out : List (Option Char)) :
      (step.settle out).1 ≠ .start ∨ (step.settle out).2 ≠ [] := by
    cases step with
    | more state => exact .inl (begun state rfl)
    | _ => exact .inr (by simp [Step.settle])
  have first b := settled (first b) fun _ more => (first_high more).2
  have some state bytes (out : List (Option Char)) (begun : state ≠ .start ∨ out ≠ []) :
      pieces state bytes out ≠ [] := by
    induction bytes generalizing state out with
    | nil => cases state <;> simp_all [pieces]
    | cons b rest ih =>
      cases state with
      | start => exact ih _ _ (first b out)
      | inside owed low top code =>
        rw [pieces]
        cases found : next owed low top code b with
        | illFormed => exact ih _ _ (first b _)
        | char c => exact ih _ _ (.inr (by simp))
        | more state =>
          refine ih _ _ (.inl fun start => ?_)
          unfold next at found
          split_ifs at found
          cases found.trans (congrArg Step.more start)
  rw [lossyChars,ne_eq,map_eq_nil_iff]
  exact some _ rest _ (first b [])

theorem encode_class (high : ∀ b, 0x80 ≤ b.toNat → p b) (fits : Fits p c) :
    ∃ b more, utf8EncodeChar c = b :: more ∧ p b ∧ ∀ b ∈ more, p b := by
  by_cases small : c.toNat < 0x80
  · exact ⟨_,[],encode_ascii small,fits small,by simp⟩
  · obtain ⟨some,all⟩ := encode_high (Nat.le_of_not_lt small)
    obtain ⟨b,more,same⟩ := exists_cons_of_ne_nil some
    rw [same] at all
    obtain ⟨here,rest⟩ := forall_mem_cons.mp all
    exact ⟨b,more,same,high b here,fun b member => high b (rest b member)⟩

theorem ofString_class (high : ∀ b : UInt8, 0x80 ≤ b.toNat → p b) (fits : ∀ c ∈ text.toList, Fits p c) :
    ∀ b ∈ ofString text, p b := by
  intro b member
  rw [ofString_eq,mem_flatMap] at member
  obtain ⟨c,there,member⟩ := member
  obtain ⟨first,more,same,holds,others⟩ := encode_class high (fits c there)
  rw [same] at member
  rcases mem_cons.mp member with rfl | member
  · exact holds
  · exact others b member

theorem ofString_head (high : ∀ b : UInt8, 0x80 ≤ b.toNat → p b) (fits : Fits p c) (rest : List Char) :
    (ofString (ofList (c :: rest))).head?.any p := by
  obtain ⟨b,more,same,holds,_⟩ := encode_class high fits
  rwa [ofString_eq,toList_ofList,flatMap_cons,same]

end Class

end Utf8
end OnePass
