import OnePass.Proofs.Lexeme

/-! # Joined lines

A backslash at a line end joins two lines, and neither is a character of the text. What is left of a text, and
the line on which each character stands, is said here by places in the text. -/
namespace OnePass

open List

/-- How many bytes the joined line end in front takes. -/
def joinLength : Bytes → Nat
  | 0x5c :: 0x0a :: _ => 2
  | 0x5c :: 0x0d :: 0x0a :: _ => 3
  | 0x5c :: 0x0d :: _ => 2
  | _ => 0

/-- No joined line end reaches over the byte at the place. -/
def Kept (text : Bytes) (place : Nat) : Prop := ∀ q ≤ place, q + joinLength (text.drop q) ≤ place

instance (text : Bytes) : DecidablePred (Kept text) := fun place =>
  inferInstanceAs (Decidable (∀ q, q ≤ place → q + joinLength (text.drop q) ≤ place))

def places (text : Bytes) : List Nat := (range text.length).filter (Kept text ·)

def characters (text : Bytes) : Bytes := (places text).filterMap (text[·]?)

/-- A line ends with the byte at the place: a line feed, or a joined return before none. -/
def endsLine (text : Bytes) (place : Nat) : Bool :=
  text[place]? == some 0x0a ||
    (text[place]? == some 0x0d && text[place + 1]? != some 0x0a && place != 0 && text[place - 1]? == some 0x5c)

def lineEnds (text : Bytes) (place : Nat) : Nat := (range place).countP (endsLine text)

/-- The line of a place. -/
def lineOf (text : Bytes) (place : Nat) : UInt32 := UInt32.ofNat (1 + lineEnds text place)

theorem splice_join (joined : joinLength bytes ≠ 0) (joins : UInt32) (read : List Glyph) :
    splice joins read bytes = splice (joins + 1) read (bytes.drop (joinLength bytes)) := by
  unfold joinLength at joined ⊢
  split <;> simp_all [splice]

theorem splice_keep (kept : joinLength (b :: rest) = 0) (joins : UInt32) (read : List Glyph) :
    splice joins read (b :: rest) = splice 0 (⟨b,joins⟩ :: read) rest := by
  unfold joinLength at kept
  split at kept <;> cases kept
  rw [splice] <;> simp_all

theorem splice_append (before : List Glyph) (joins : UInt32) (read : List Glyph) (bytes : Bytes) :
    splice joins (read ++ before) bytes =
      (before.reverse ++ (splice joins read bytes).1,(splice joins read bytes).2) := by
  fun_induction splice joins read bytes with
  | case1 joins read rest ih => rwa [splice]
  | case2 joins read rest ih => rwa [splice]
  | case3 joins read rest other ih => rwa [splice]; exact other
  | case4 joins read b rest _ _ _ ih =>
    rw [splice]
    · exact ih
    all_goals assumption
  | case5 joins read => simp [splice]

theorem splice_first (kept : joinLength (b :: rest) = 0) (joins : UInt32)
    (read : List Glyph) : splice joins read (b :: rest) =
      (read.reverse ++ ⟨b,joins⟩ :: (splice 0 [] rest).1,(splice 0 [] rest).2) := by
  rw [splice_keep kept,← nil_append (_ :: read),splice_append]
  simp

theorem joinLength_other (other : b ≠ 0x5c) (rest : Bytes) : joinLength (b :: rest) = 0 := by
  unfold joinLength
  split <;> simp_all

theorem joinLength_slash (other : rest.head? ≠ some 0x0a ∧ rest.head? ≠ some 0x0d) : joinLength (0x5c :: rest) = 0 := by
  unfold joinLength
  split <;> simp_all

/-- A place that no joined line end reaches over from before. -/
def Clean (text : Bytes) (place : Nat) : Prop := ∀ q < place, q + joinLength (text.drop q) ≤ place

theorem kept_iff : Kept text place ↔ Clean text place ∧ joinLength (text.drop place) = 0 := by
  refine ⟨fun kept => ⟨fun q below => kept q (le_of_lt below),?_⟩,fun ⟨clean,unjoined⟩ q below => ?_⟩
  · have := kept place (le_refl _)
    omega
  · rcases lt_or_eq_of_le below with below | rfl
    · exact clean q below
    · omega

theorem joinLength_cases (text : Bytes) (place : Nat) : joinLength (text.drop place) = 0 ∨ text[place]? = some 0x5c ∧
      (joinLength (text.drop place) = 2 ∧ text[place + 1]? = some 0x0a ∨
        joinLength (text.drop place) = 3 ∧ text[place + 1]? = some 0x0d ∧ text[place + 2]? = some 0x0a ∨
        joinLength (text.drop place) = 2 ∧ text[place + 1]? = some 0x0d ∧ text[place + 2]? ≠ some 0x0a) := by
  have at_ i : text[place + i]? = (text.drop place)[i]? := getElem?_drop.symm
  have here := at_ 0
  rw [add_zero] at here
  rw [here,at_ 1,at_ 2]
  generalize text.drop place = rest
  unfold joinLength
  split <;> simp
  next rest other =>
    cases rest with
    | nil => simp
    | cons c rest => simpa using fun same => other rest (by rw [same])

variable {text : Bytes}

theorem Clean.join (clean : Clean text place) : Clean text (place + joinLength (text.drop place)) := by
  intro q below
  rcases lt_trichotomy q place with before | rfl | behind
  · have := clean q before
    omega
  · exact le_refl _
  · -- the bytes of a line end begin no other join
    have unjoined : joinLength (text.drop q) = 0 := by
      refine (joinLength_cases text q).resolve_right fun ⟨slash,_⟩ => ?_
      rcases joinLength_cases text place with length | ⟨_,⟨length,next⟩ | ⟨length,next,last⟩ | ⟨length,next,_⟩⟩
      · omega
      · obtain rfl : q = place + 1 := by omega
        simp [next] at slash
      · obtain rfl | rfl : q = place + 1 ∨ q = place + 2 := by omega
        · simp [next] at slash
        · simp [last] at slash
      · obtain rfl : q = place + 1 := by omega
        simp [next] at slash
    omega

theorem Kept.succ (kept : Kept text place) : Clean text (place + 1) :=
  fun q below => Nat.le_succ_of_le (kept q (Nat.le_of_lt_succ below))

theorem lineEnds_succ (text : Bytes) (place : Nat) :
    lineEnds text (place + 1) = lineEnds text place + if endsLine text place then 1 else 0 := by
  simp [lineEnds,range_succ]

theorem lineEnds_join (joined : joinLength (text.drop place) ≠ 0) :
    lineEnds text (place + joinLength (text.drop place)) = lineEnds text place + 1 := by
  rcases joinLength_cases text place with none | ⟨slash,⟨length,next⟩ | ⟨length,next,last⟩ | ⟨length,next,last⟩⟩
  · exact absurd none joined
  · rw [length,lineEnds_succ,lineEnds_succ]
    simp [endsLine,slash,next]
  · rw [length,lineEnds_succ,lineEnds_succ,lineEnds_succ]
    simp [endsLine,slash,next,last]
  · rw [length,lineEnds_succ,lineEnds_succ]
    simp [endsLine,slash,next,last]

theorem endsLine_clean (clean : Clean text place) : endsLine text place = (text[place]? == some 0x0a) := by
  cases place with
  | zero => simp [endsLine]
  | succ q =>
    have joined (slash : text[q]? = some 0x5c) (next : text[q + 1]? = some 0x0d) : 2 ≤ joinLength (text.drop q) := by
      rw [← add_zero q,← getElem?_drop] at slash
      rw [← getElem?_drop] at next
      generalize text.drop q = rest at slash next
      match rest, slash, next with
      | _ :: _ :: _, rfl, rfl =>
        unfold joinLength
        split <;> simp_all
    have reach := clean q (Nat.lt_succ_self q)
    by_cases slash : text[q]? = some 0x5c
    · by_cases next : text[q + 1]? = some 0x0d
      · have := joined slash next
        omega
      · simp [endsLine,next]
    · simp [endsLine,slash]

theorem lineOf_join (joined : joinLength (text.drop place) ≠ 0) :
    lineOf text (place + joinLength (text.drop place)) = lineOf text place + 1 := by
  rw [lineOf,lineEnds_join joined,← add_assoc,UInt32.ofNat_add]
  rfl

theorem lineOf_succ (clean : Clean text place) (here : text[place]? = some b) :
    lineOf text (place + 1) = Source.lineAfter (lineOf text place) b := by
  rw [lineOf,lineEnds_succ,endsLine_clean clean,here,Source.lineAfter,lineOf,Ascii.newline]
  by_cases same : b = 0x0a
  · simp [same,← add_assoc]
  · simp [same]

def marksAt (text : Bytes) (place : Nat) : Track :=
  ((range' place (text.length - place)).filter (Kept text ·)).filterMap fun q => text[q]?.map (·,lineOf text q)

theorem marksAt_kept (kept : Kept text place) (here : text[place]? = some b) :
    marksAt text place = (b,lineOf text place) :: marksAt text (place + 1) := by
  have below : place < text.length := (List.getElem?_eq_some_iff.mp here).1
  rw [marksAt,show text.length - place = (text.length - (place + 1)) + 1 by omega,range'_succ]
  simp [kept,here,marksAt]

theorem joinLength_le (bytes : Bytes) : joinLength bytes ≤ bytes.length := by
  unfold joinLength
  split <;> simp

theorem marksAt_join (text : Bytes) (place : Nat) :
    marksAt text place = marksAt text (place + joinLength (text.drop place)) := by
  have fits := joinLength_le (text.drop place)
  rw [length_drop] at fits
  have skipped : (range' place (joinLength (text.drop place))).filter (Kept text ·) = [] := by
    refine filter_eq_nil_iff.mpr fun q member => ?_
    obtain ⟨least,below⟩ := mem_range'_1.mp member
    simpa using fun kept => Nat.not_le_of_lt below (kept place least)
  have parts : range' place (text.length - place) = range' place (joinLength (text.drop place)) ++
      range' (place + joinLength (text.drop place)) (text.length - (place + joinLength (text.drop place))) := by
    rw [range'_append_1]
    congr 1
    omega
  rw [marksAt,parts,filter_append,skipped,nil_append,marksAt]

open Source in
/-- A text is read from a place on as its characters and their lines. -/
theorem splice_marksAt (clean : Clean text place) (within : place ≤ text.length) (joins line : UInt32)
    (counted : line + joins = lineOf text place) :
    marksFrom line (splice joins [] (text.drop place)).1 = marksAt text place ∧
      lineBehind line (splice joins [] (text.drop place)).1 + (splice joins [] (text.drop place)).2 =
        lineOf text text.length := by
  induction left : text.length - place using Nat.strongRecOn generalizing place joins line with
  | ind left ih =>
    have fits := joinLength_le (text.drop place)
    rw [length_drop] at fits
    by_cases joined : joinLength (text.drop place) = 0
    · rcases lt_or_eq_of_le within with below | rfl
      · have here : text[place]? = some text[place] := getElem?_eq_getElem below
        have kept := kept_iff.mpr ⟨clean,joined⟩
        have rest := ih (text.length - (place + 1)) (by omega) kept.succ (by omega) 0
          (lineAfter (lineOf text place) text[place])
          (by rw [lineOf_succ clean here]; simp) rfl
        rw [drop_eq_getElem_cons below] at joined ⊢
        rw [splice_first joined,marksAt_kept kept here]
        refine ⟨?_,?_⟩
        · simpa [marksFrom,counted] using rest.1
        · simpa [lineBehind,counted] using rest.2
      · simpa [splice,marksFrom,lineBehind,marksAt] using counted
    · rw [splice_join joined,drop_drop,marksAt_join]
      refine ih _ ?_ clean.join (by omega) _ _ ?_ rfl
      · omega
      · rw [lineOf_join joined,← counted,UInt32.add_assoc]

theorem ofBytes_marks (name : String) (text : Bytes) : (Source.ofBytes name text).marks = marksAt text 0 ∧
    (Source.ofBytes name text).lastLine = lineOf text text.length :=
  splice_marksAt (fun q below => absurd below (Nat.not_lt_zero q)) (Nat.zero_le text.length) 0 1 rfl

theorem places_eq (text : Bytes) : (range' 0 (text.length - 0)).filter (Kept text ·) = places text := by
  rw [Nat.sub_zero,← range_eq_range',places]

theorem bytes_marksAt (text : Bytes) : (marksAt text 0).bytes = characters text := by
  rw [marksAt,places_eq,Track.bytes,map_filterMap]
  simp [characters,Function.comp_def]

/-- Where the last `count` characters of a text begin; the end of the text for none. -/
def placeOfLast (text : Bytes) (count : Nat) : Nat := (places text).getD ((places text).length - count) text.length

theorem line_of_marksAt {before rest : Track} (parts : marksAt text 0 = before ++ rest) :
    rest.line (lineOf text text.length) = lineOf text (placeOfLast text rest.length) := by
  have lines : (before ++ rest).map Prod.snd = (places text).map (lineOf text) := by
    rw [← parts,marksAt,places_eq,map_filterMap,← filterMap_eq_map]
    refine filterMap_congr fun q member => ?_
    have below : q < text.length := mem_range.mp (mem_filter.mp member).1
    simp [getElem?_eq_getElem below]
  have size := congrArg length lines
  simp only [length_append,length_map] at size
  have first : rest.head?.map Prod.snd = (places text)[before.length]?.map (lineOf text) := by
    rw [← getElem?_map,← lines,map_append,getElem?_append_right (by simp)]
    simp [head?_eq_getElem?]
  rw [Track.line,first,placeOfLast,← size,Nat.add_sub_cancel,getD_eq_getElem?_getD]
  cases (places text)[before.length]? <;> rfl

end OnePass
