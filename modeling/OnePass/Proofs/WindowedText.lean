import OnePass.Source.Window
import OnePass.Proofs.Splicing
import OnePass.Proofs.StreamSimulation

/-! # Windows show the text

However its reader hands over the bytes, a file read through a window gives the characters of its text. So
the lexer cannot tell it from a text at hand. -/
namespace OnePass

open List Lexer

namespace Window

variable {w : Window}

def Steady (w : Window) : Prop := ∀ reader ∈ w.reader, .failed ∉ reader.calls

theorem unread_of_empty (empty : w.pos = w.stop) : w.unread = (w.reader.map (·.left)).getD [] := by
  have behind : (w.buffer.toList.take w.stop).drop w.stop = [] := drop_eq_nil_of_le (length_take_le _ _)
  rw [unread,empty,behind,nil_append]

theorem fill_steady (steady : w.Steady) : w.fill.2.Steady ∧ (w.pos = w.stop → w.fill.1 = false → w.unread = []) := by
  unfold fill
  split
  next none => exact ⟨steady,fun empty _ => by simp [unread_of_empty empty,none]⟩
  next reader source =>
    have loaded := load_loaded reader w.buffer 0 (Nat.zero_le _) (w.wide (by simp [source]))
    have calm := steady reader source
    refine ⟨?_,fun empty nothing => ?_⟩
    · rintro _ ⟨⟩ failed
      exact calm (loaded.calls.mem failed)
    · have zero : (load reader w.buffer 0).2.1 = 0 := by simpa [refill] using nothing
      have bytes := loaded.bytes
      have left := (loaded.whole calm).resolve_left (by rw [zero]; decide)
      simpa [unread_of_empty empty,source,zero,left] using bytes.symm

theorem peek_spec (steady : w.Steady) : w.peek.2.Steady ∧ w.peek.1 = w.unread.head? := by
  have seen_first {b : UInt8} {later : Window} (seen : w.peek = (some b,later)) : w.unread.head? = some b := by
    rw [← unread_of_peek seen,unread_of_pos_lt (peek_pos_lt seen),peek_front seen]
    rfl
  obtain ⟨calm,ended⟩ := fill_steady steady
  rcases seen : w.peek with ⟨_ | b,later⟩
  · unfold peek at seen
    split at seen
    next empty =>
      simp only [Bool.and_eq_true,decide_eq_true_eq] at empty
      split at seen <;> cases seen
      next filled =>
        rw [filled] at calm ended
        exact ⟨calm,by rw [ended (Nat.le_antisymm w.pos_le empty.2) rfl]; rfl⟩
    next => cases seen
  · refine ⟨?_,(seen_first seen).symm⟩
    unfold peek at seen
    split at seen
    · split at seen <;> cases seen
      next filled => rwa [filled] at calm
    · cases seen
      exact steady

theorem next_spec (steady : w.Steady) :
    w.next.2.Steady ∧ w.next.1 = w.unread.head? ∧ w.next.2.unread = w.unread.tail := by
  obtain ⟨calm,head⟩ := peek_spec steady
  rcases read : w.next with ⟨_ | b,later⟩
  · unfold next at read
    split at read
    next => cases read
    next seen =>
      cases read
      rw [seen] at calm head
      have empty : w.unread = [] := head?_eq_none_iff.mp head.symm
      exact ⟨calm,head,by rw [unread_of_peek seen,empty]; rfl⟩
  · rw [next_unread read]
    refine ⟨?_,rfl,rfl⟩
    unfold next at read
    split at read
    next seen =>
      cases read
      rwa [seen] at calm
    next => cases read

theorem steady_of_next (steady : w.Steady) (read : w.next = (b,later)) : later.Steady := by
  have calm := (next_spec steady).1
  rwa [read] at calm

theorem next_of_peek (steady : w.Steady) (seen : w.peek = (some b,later)) :
    later.next.2.Steady ∧ w.unread = b :: later.next.2.unread := by
  obtain ⟨calm,head⟩ := peek_spec steady
  rw [seen] at calm head
  obtain ⟨calm,_,tail⟩ := next_spec calm
  rw [tail,unread_of_peek seen]
  cases unread : w.unread with
  | nil => simp [unread] at head
  | cons c rest => simp_all

/-- The next character of a window is the first one of its text. -/
theorem character_splice (line joins : UInt32) (steady : w.Steady) :
    (w.character line).2.2.Steady ∧ ((w.character line).1 = none → (w.character line).2.2.unread = []) ∧
      ∃ more, (w.character line).2.1 = line + more ∧ splice joins [] w.unread = match (w.character line).1 with
        | some b => (⟨b,joins + more⟩ :: (splice 0 [] (w.character line).2.2.unread).1,
            (splice 0 [] (w.character line).2.2.unread).2)
        | none => ([],joins + more) := by
  fun_induction character line w generalizing joins with
  | case1 line w w₁ read w₂ seen ih =>
    obtain ⟨calm,unread⟩ := next_of_peek (steady_of_next steady read) seen
    obtain ⟨calm,ended,more,counted,same⟩ := ih (joins + 1) calm
    refine ⟨calm,ended,1 + more,by rw [counted,UInt32.add_assoc],?_⟩
    rw [next_unread read,unread,splice,same,UInt32.add_assoc]
  | case2 line w w₁ read w₂ seen w₃ behind ih =>
    obtain ⟨calm,unread⟩ := next_of_peek (steady_of_next steady read) seen
    obtain ⟨calm,unread'⟩ := next_of_peek calm behind
    obtain ⟨calm,ended,more,counted,same⟩ := ih (joins + 1) calm
    refine ⟨calm,ended,1 + more,by rw [counted,UInt32.add_assoc],?_⟩
    rw [next_unread read,unread,unread',splice,same,UInt32.add_assoc]
  | case3 line w w₁ read w₂ seen b w₃ other behind ih =>
    obtain ⟨calm,unread⟩ := next_of_peek (steady_of_next steady read) seen
    obtain ⟨calm',head⟩ := peek_spec calm
    rw [behind] at calm' head
    obtain ⟨calm,ended,more,counted,same⟩ := ih (joins + 1) calm'
    refine ⟨calm,ended,1 + more,by rw [counted,UInt32.add_assoc],?_⟩
    rw [unread_of_peek behind] at same
    rw [next_unread read,unread,splice,same,UInt32.add_assoc]
    rintro rest eq
    rw [eq] at head
    exact other head
  | case4 line w w₁ read b w₂ noFeed noReturn seen =>
    obtain ⟨calm,head⟩ := peek_spec (steady_of_next steady read)
    rw [seen] at calm head
    refine ⟨calm,by rintro ⟨⟩,0,by simp,?_⟩
    rw [next_unread read,splice_first (joinLength_slash (by rw [← head]; exact ⟨noFeed,noReturn⟩)),unread_of_peek seen]
    simp
  | case5 line w b w₁ noSlash read =>
    obtain ⟨calm,head,tail⟩ := next_spec steady
    rw [read] at calm head tail
    cases b with
    | none =>
      have empty : w.unread = [] := head?_eq_none_iff.mp head.symm
      exact ⟨calm,fun _ => by rw [tail,empty]; rfl,0,by simp,by simp [empty,splice]⟩
    | some b =>
      have kept := joinLength_other (fun slash : b = 0x5c => noSlash (by rw [slash])) w₁.unread
      exact ⟨calm,by rintro ⟨⟩,0,by simp,by rw [next_unread read,splice_first kept]; simp⟩

end Window

namespace Source

theorem head?_settle (src : Source) : src.settle.head? = src.head? := by
  unfold settle head?
  cases src.text <;> rfl

theorem next_settle (src : Source) : src.settle.next = src.next := by
  unfold next settle
  cases src.text <;> simp

end Source

namespace WindowedFile

/-- A file shows the same as a text at hand. A character that was looked at is the first of the text. -/
structure Shows (file : WindowedFile) (src : Source) : Prop where
  line : file.line = src.line
  lineStart : file.lineStart = src.lineStart
  steady : file.window.Steady
  text : match file.peeked with
    | none => splice 0 [] file.window.unread = (src.text,src.tail)
    | some none => src.text = [] ∧ src.tail = 0 ∧ splice 0 [] file.window.unread = ([],0)
    | some (some b) => ∃ rest, src.text = ⟨b,0⟩ :: rest ∧ splice 0 [] file.window.unread = (rest,src.tail)

theorem Shows.peek (shows_ : Shows file src) :
    file.peek.1 = src.head? ∧ Shows file.peek.2 src.settle ∧ file.peek.2.peeked = some src.head? := by
  have text := shows_.text
  unfold WindowedFile.peek
  split
  next b looked =>
    rw [looked] at text
    cases b with
    | none =>
      obtain ⟨none,tail,unread⟩ := text
      have settled : src.settle = { src with ended := true } := by simp [Source.settle,none,tail]
      refine ⟨by simp [Source.head?,none],?_,by simp [Source.head?,none,looked]⟩
      rw [settled]
      exact ⟨shows_.line,shows_.lineStart,shows_.steady,by simp [looked,none,tail,unread]⟩
    | some b =>
      obtain ⟨rest,first,unread⟩ := text
      have settled : src.settle = src := by
        obtain ⟨⟩ := src
        cases first
        simp [Source.settle]
      refine ⟨by simp [Source.head?,first],?_,by simp [Source.head?,first,looked]⟩
      rwa [settled]
  next looked =>
    rw [looked] at text
    obtain ⟨calm,ended,more,counted,same⟩ := Window.character_splice file.line 0 shows_.steady
    rw [text] at same
    generalize file.window.character file.line = read at *
    obtain ⟨b,line,window⟩ := read
    cases b with
    | none =>
      obtain ⟨none,tail⟩ := Prod.mk.inj same
      refine ⟨by simp [Source.head?,none],⟨?_,?_,calm,?_⟩,by simp [Source.head?,none]⟩
      · simpa [Source.settle,none,tail,← shows_.line] using counted
      · simpa [Source.settle,none] using shows_.lineStart
      · simp [Source.settle,none,ended rfl,splice]
    | some b =>
      obtain ⟨first,tail⟩ := Prod.mk.inj same
      refine ⟨by simp [Source.head?,first],⟨?_,?_,calm,?_⟩,by simp [Source.head?,first]⟩
      · simpa [Source.settle,first,← shows_.line] using counted
      · simpa [Source.settle,first] using shows_.lineStart
      · exact ⟨(splice 0 [] window.unread).1,by simp [Source.settle,first],by simp [Source.settle,first,tail]⟩

theorem Shows.next (shows_ : Shows file src) : file.next.1 = src.next.1 ∧ Shows file.next.2 src.next.2 := by
  obtain ⟨head,settled,looked⟩ := shows_.peek
  have text := settled.text
  unfold WindowedFile.next Source.next
  generalize file.peek = seen at *
  obtain ⟨b,file⟩ := seen
  rw [looked,← head] at text
  cases b with
  | none =>
    obtain ⟨none,tail,unread⟩ := text
    simp only [none]
    exact ⟨trivial,settled.line,settled.lineStart,settled.steady,by simp [none,tail,unread]⟩
  | some b =>
    obtain ⟨rest,text,unread⟩ := text
    simp only [text]
    refine ⟨trivial,?_,settled.lineStart,settled.steady,unread⟩
    simp [Source.lineAfter,← settled.line]

theorem Shows.eat (shows_ : Shows file src) (expected : UInt8) :
    (file.eat expected).1 = (src.eat expected).1 ∧ Shows (file.eat expected).2 (src.eat expected).2 := by
  obtain ⟨head,settled,_⟩ := shows_.peek
  unfold WindowedFile.eat Source.eat
  dsimp only
  rw [Source.head?_settle,head]
  split_ifs
  · exact ⟨rfl,settled.next.2⟩
  · exact ⟨rfl,settled⟩

theorem Shows.scan (shows_ : Shows file src) (m : Scanner σ α) (state : σ) :
    (file.scan m state).1 = (src.scan m state).1 ∧ Shows (file.scan m state).2 (src.scan m state).2 := by
  -- a character that is there for one is there for the other, on the same line
  have step {file later : WindowedFile} {src : Source} {b : UInt8} (shows_ : Shows file src)
      (seen : file.peek = (some b,later)) : Shows later src.settle ∧ Shows later.next.2 src.next.2 ∧
        ∃ glyph rest, src.text = glyph :: rest ∧ glyph.byte = b ∧ src.line + glyph.joins = later.line := by
    obtain ⟨head,settled,_⟩ := shows_.peek
    rw [seen] at head settled
    obtain ⟨glyph,first,byte⟩ := Option.map_eq_some_iff.mp head.symm
    obtain ⟨rest,text⟩ := head?_eq_some_iff.mp first
    refine ⟨settled,Source.next_settle src ▸ settled.next.2,glyph,rest,text,byte,?_⟩
    simpa [Source.settle,text] using settled.line.symm
  fun_induction WindowedFile.scan m state file generalizing src with
  | case1 state file later seen =>
    obtain ⟨head,settled,_⟩ := shows_.peek
    rw [seen] at head settled
    have none : src.text = [] := by simpa [Source.head?] using head.symm
    rw [Source.scan_step,none]
    exact ⟨rfl,settled⟩
  | case2 state file b later seen next move ih =>
    obtain ⟨_,read,glyph,rest,text,rfl,line⟩ := step shows_ seen
    rw [Source.scan_take text (by rwa [line])]
    exact ih read
  | case3 state file b later seen result move =>
    obtain ⟨_,read,glyph,rest,text,rfl,line⟩ := step shows_ seen
    rw [Source.scan_step,text]
    simp only [line,move]
    exact ⟨trivial,read⟩
  | case4 state file b later seen result move =>
    obtain ⟨settled,_,glyph,rest,text,rfl,line⟩ := step shows_ seen
    rw [Source.scan_step,text]
    simp only [line,move]
    exact ⟨trivial,settled⟩

end WindowedFile

theorem WindowedFile.shows_simulates : CharStream.Simulates Shows where
  line shows_ := shows_.line
  lineStart shows_ := shows_.lineStart
  restart _ shows_ := ⟨shows_.line,rfl,shows_.steady,shows_.text⟩
  settle shows_ := shows_.peek.2.1
  head? shows_ := shows_.peek.1
  next shows_ := shows_.next
  eat b shows_ := shows_.eat b
  scan m state shows_ := shows_.scan m state

namespace WindowedFile

theorem ofReader_shows (steady : .failed ∉ calls) (name : String) :
    Shows (ofReader ⟨text,calls⟩) (Source.ofBytes name text) where
  line := rfl
  lineStart := rfl
  steady := by rintro _ ⟨⟩; exact steady
  text := by simp [ofReader,Window.ofReader,Window.unread,Source.ofBytes]

theorem ofBytes_shows (name : String) (text : Bytes) : Shows (ofBytes text) (Source.ofBytes name text) where
  line := rfl
  lineStart := rfl
  steady := by rintro _ ⟨⟩
  text := by simp [ofBytes,Window.ofBytes,Window.unread,Source.ofBytes]

end WindowedFile

/-! ## Requests -/

inductive Request where
  | peek
  | next
  | eat (expected : UInt8)
  | atEnd
  | token (newlines : Bool)

inductive Answer where
  | char (b : Option UInt8)
  | truth (holds : Bool)
  | token (result : Except LexError Token)

section Serving

open CharStream

variable [CharStream S] [CharStream T]

def answer (file : S) : Request → Answer × S
  | .peek => (.char (head? file),settle file)
  | .next => (next file).map .char id
  | .eat expected => (eat expected file).map .truth id
  | .atEnd => (.truth (head? file).isNone,settle file)
  | .token newlines => (nextToken newlines file).map .token id

/-- The answers to requests in order, each with the line behind it and whether the line has only white space yet. -/
def serve (file : S) : List Request → List (Answer × UInt32 × Bool) × S
  | [] => ([],file)
  | request :: more =>
    let (reply,file) := answer file request
    (serve file more).map ((reply,line file,lineStart file) :: ·) id

variable {R : S → T → Prop}

theorem answer_same (alike : Simulates R) (related : R file src) (request : Request) :
    Alike R (answer file request) (answer src request) := by
  cases request with
  | peek => exact ⟨congrArg Answer.char (alike.head? related),alike.settle related⟩
  | atEnd => exact ⟨congrArg Answer.truth (congrArg Option.isNone (alike.head? related)),alike.settle related⟩
  | next =>
    obtain ⟨same,related⟩ := alike.next related
    exact ⟨congrArg Answer.char same,related⟩
  | eat expected =>
    obtain ⟨same,related⟩ := alike.eat expected related
    exact ⟨congrArg Answer.truth same,related⟩
  | token newlines =>
    obtain ⟨same,related⟩ := nextToken_same alike related newlines
    exact ⟨congrArg Answer.token same,related⟩

theorem serve_same (alike : Simulates R) (related : R file src) (requests : List Request) :
    Alike R (serve file requests) (serve src requests) := by
  induction requests generalizing file src with
  | nil => exact ⟨rfl,related⟩
  | cons request more ih =>
    obtain ⟨reply,file,src,left,right,related⟩ := (answer_same alike related request).split
    obtain ⟨same,behind⟩ := ih related
    rw [serve,serve,left,right]
    exact ⟨by simp [same,alike.line related,alike.lineStart related],behind⟩

end Serving

/-- What a request tells of the characters still to come before and behind it. A token begins where its spelling
does, on the line of that place. -/
def Right (text before after : Bytes) : Request → Answer → Prop
  | .peek,.char b => b = before.head? ∧ after = before
  | .next,.char b => b = before.head? ∧ after = before.tail
  | .eat expected,.truth eaten =>
    eaten = (before.head? == some expected) ∧ after = if eaten then before.tail else before
  | .atEnd,.truth ended => ended = before.isEmpty ∧ after = before
  | .token newlines,.token (.ok tok) => ∃ gap raw, before = gap ++ raw ++ after ∧
    Lexer.Delivers newlines raw tok.kind ∧
    tok.line.toNat = 1 + lineEnds text (placeOfLast text (raw ++ after).length)
  | .token _,.token (.error _) => after <:+ before
  | _,_ => False

namespace Source

theorem rest_unread (src : Source) : (CharStream.rest src).1 = src.unread := by
  have driven text line read :
      (drive { onChar := fun read _ b => .take (b :: read),onEnd := reverse } read line text).1 =
        read.reverse ++ text.map (·.byte) := by
    induction text generalizing line read with
    | nil => simp [drive]
    | cons glyph more ih => rw [drive,ih]; simp
  have driven := driven src.text src.line []
  rw [CharStream.rest,stream_scan,scan]
  split <;> simp_all [unread]

theorem head?_unread (src : Source) : src.head? = src.unread.head? := by simp [head?,unread]

theorem next_unread (src : Source) : src.next.1 = src.unread.head? ∧ src.next.2.unread = src.unread.tail := by
  unfold next settle unread
  cases src.text <;> simp

theorem next_moves (src : Source) : ∃ read, Consumes src read src.next.2 := by
  cases text : src.text with
  | nil =>
    have ended : src.next.2 = src.settle := by simp [next,settle,text]
    exact ⟨[],ended ▸ src.settle_consumes⟩
  | cons glyph rest => exact ⟨_,(next_consumes text).2⟩

end Source

theorem lineEnds_le (text : Bytes) (within : place ≤ text.length) : lineEnds text place ≤ lineEnds text text.length :=
  (range_sublist.mpr within).countP_le

theorem placeOfLast_le (text : Bytes) (count : Nat) : placeOfLast text count ≤ text.length := by
  rw [placeOfLast,getD_eq_getElem?_getD]
  cases found : (places text)[(places text).length - count]? with
  | none => exact Nat.le_refl _
  | some place =>
    have member := mem_filter.mp (mem_of_getElem? found)
    exact Nat.le_of_lt (mem_range.mp member.1)

theorem lineOf_toNat (few : 1 + lineEnds text text.length < 2 ^ 32)
    (within : place ≤ text.length) : (lineOf text place).toNat = 1 + lineEnds text place := by
  have := lineEnds_le text within
  exact UInt32.toNat_ofNat_of_lt' (by simp only [UInt32.size]; omega)

theorem answer_moves (src : Source) (request : Request) : ∃ read, src.Consumes read (answer src request).2 := by
  cases request with
  | peek | atEnd => exact ⟨[],src.settle_consumes⟩
  | next => exact src.next_moves
  | eat expected =>
    obtain ⟨read,consumes,_⟩ := Source.eat_consumes (Prod.eta (src.eat expected)).symm
    exact ⟨read,consumes⟩
  | token newlines =>
    obtain ⟨gap,read,consumes,_⟩ := nextToken_spec newlines src
    exact ⟨gap ++ read,consumes⟩

theorem serve_moves (src : Source) (requests : List Request) : ∃ read, src.Consumes read (serve src requests).2 := by
  induction requests generalizing src with
  | nil => exact ⟨[],.refl src⟩
  | cons request more ih =>
    obtain ⟨read,first⟩ := answer_moves src request
    obtain ⟨others,behind⟩ := ih (answer src request).2
    exact ⟨read ++ others,first.trans behind⟩

theorem answer_right (few : 1 + lineEnds text text.length < 2 ^ 32)
    (reached : (Source.ofBytes name text).Consumes before src) (request : Request) :
    Right text src.unread (answer src request).2.unread request (answer src request).1 := by
  have settled := src.settle_consumes.unread.symm
  cases request with
  | peek => exact ⟨src.head?_unread,settled⟩
  | atEnd =>
    refine ⟨?_,settled⟩
    rw [Source.stream_head?,src.head?_unread]
    cases src.unread <;> rfl
  | next => exact src.next_unread
  | eat expected =>
    have eaten : src.eat expected = if src.unread.head? == some expected then (true,src.next.2) else (false,src.settle) := by
      rw [Source.eat,src.head?_settle,src.next_settle,src.head?_unread]
    simp only [answer,Source.stream_eat,eaten]
    split_ifs with same
    · exact ⟨same.symm,src.next_unread.2⟩
    · exact ⟨by simpa using same,settled⟩
  | token newlines =>
    obtain ⟨gap,read,consumes,delivered⟩ := nextToken_spec newlines src
    rcases found : nextToken newlines src with ⟨result,later⟩
    have reply : answer src (.token newlines) = (.token result,later) := by rw [answer,found]; rfl
    rw [found] at consumes delivered
    have parts := consumes.unread
    rw [Track.bytes_append] at parts
    rw [reply]
    cases result with
    | error e => exact ⟨_,parts.symm⟩
    | ok tok =>
      obtain ⟨kind,line⟩ := delivered tok rfl
      refine ⟨gap.bytes,read.bytes,parts,kind,?_⟩
      obtain ⟨marks,lastLine⟩ := ofBytes_marks name text
      have here : marksAt text 0 = (before ++ gap) ++ (read ++ later.marks) := by
        rw [← marks,reached.marks,consumes.marks]
        simp
      have size : (read ++ later.marks).length = (read.bytes ++ later.unread).length := by
        rw [← later.bytes_marks]
        simp [Track.bytes]
      rw [line,reached.lastLine,lastLine,line_of_marksAt here,size]
      exact lineOf_toNat few (placeOfLast_le ..)

/-- A file read through a window cannot be told from a text at hand, however its bytes come: every request gets
the same answer, on the same line. What it shows are the characters of the text, each request moves through them
as it says, and tokens know where they began. -/
theorem windowed_text (text : Bytes) (calls : List ReadCall) (steady : .failed ∉ calls)
    (few : 1 + lineEnds text text.length < 2 ^ 32) (requests : List Request) :
    (serve (WindowedFile.ofReader ⟨text,calls⟩) requests).1 = (serve (WindowedFile.ofBytes text) requests).1 ∧
      (CharStream.rest (WindowedFile.ofBytes text)).1 = characters text ∧
      ∀ request, let file := (serve (WindowedFile.ofBytes text) requests).2
        Right text (CharStream.rest file).1 (CharStream.rest (answer file request).2).1 request (answer file request).1 := by
  have alike := WindowedFile.shows_simulates
  have shows_ := WindowedFile.ofBytes_shows "" text
  have whole {file : WindowedFile} {src : Source} (shows_ : file.Shows src) :
      (CharStream.rest file).1 = src.unread := (alike.scan _ _ shows_).1.trans src.rest_unread
  refine ⟨?_,?_,fun request => ?_⟩
  · rw [(serve_same alike (WindowedFile.ofReader_shows steady "") requests).1,(serve_same alike shows_ requests).1]
  · rw [whole shows_,← Source.bytes_marks,(ofBytes_marks "" text).1,bytes_marksAt]
  · obtain ⟨_,reached⟩ := serve_moves (Source.ofBytes "" text) requests
    have behind := (serve_same alike shows_ requests).2
    obtain ⟨same,later⟩ := answer_same alike behind request
    dsimp only
    rw [whole behind,whole later,same]
    exact answer_right few reached request

/-- A joined line whose bytes come one by one, with an interrupted call between them. -/
theorem windowed_text_bytewise :
    (serve (WindowedFile.ofReader ⟨[0x61,0x5c,0x0d,0x0a,0x62],[.short 0,.interrupted,.short 0,.short 0]⟩)
      [.next,.token false,.atEnd]).1 =
      (serve (WindowedFile.ofBytes [0x61,0x5c,0x0d,0x0a,0x62]) [.next,.token false,.atEnd]).1 :=
  (windowed_text [0x61,0x5c,0x0d,0x0a,0x62] [.short 0,.interrupted,.short 0,.short 0] (by decide) (by decide)
    [.next,.token false,.atEnd]).1

end OnePass
