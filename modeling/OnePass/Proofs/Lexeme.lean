import Mathlib.Data.List.Chain
import OnePass.Token.Lexer
import OnePass.Proofs.Utf8

/-! # The text of a token

Reading a token takes a gap and then the characters that spell the token. The token's line is the line
of the first of these. -/
namespace OnePass

open Ascii

variable {src : Source} {m : Scanner σ α}

abbrev Track := List (UInt8 × UInt32)

def Track.bytes (marks : Track) : Bytes := marks.map Prod.fst

def Track.line (marks : Track) (last : UInt32) : UInt32 := (marks.head?.map Prod.snd).getD last

@[simp] theorem Track.bytes_nil : Track.bytes [] = [] := rfl

@[simp] theorem Track.bytes_cons (mark : UInt8 × UInt32) (rest : Track) :
    Track.bytes (mark :: rest) = mark.1 :: Track.bytes rest := rfl

@[simp] theorem Track.bytes_append (first rest : Track) :
    Track.bytes (first ++ rest) = Track.bytes first ++ Track.bytes rest := List.map_append

/-- Where a move in front of a character leads: to a state, or to a result and what was read. -/
def Move.Leads (keeps : σ → Track → Prop) (post : α → Track → Prop) (read : Track) (mark : UInt8 × UInt32) :
    Move σ α → Prop
  | .take state => keeps state (read ++ [mark])
  | .last result => post result (read ++ [mark])
  | .leave result => post result read

namespace Source

def marksFrom (line : UInt32) : List Glyph → Track
  | [] => []
  | glyph :: rest => (glyph.byte,line + glyph.joins) :: marksFrom (lineAfter (line + glyph.joins) glyph.byte) rest

def lineBehind (line : UInt32) : List Glyph → UInt32
  | [] => line
  | glyph :: rest => lineBehind (lineAfter (line + glyph.joins) glyph.byte) rest

def marks (src : Source) : Track := marksFrom src.line src.text

def lastLine (src : Source) : UInt32 := lineBehind src.line src.text + src.tail

def unread (src : Source) : Bytes := src.text.map (·.byte)

theorem bytes_marksFrom (line : UInt32) (text : List Glyph) :
    Track.bytes (marksFrom line text) = text.map (·.byte) := by
  induction text generalizing line with
  | nil => rfl
  | cons glyph rest ih => rw [marksFrom,Track.bytes_cons,ih,List.map_cons]

theorem bytes_marks (src : Source) : src.marks.bytes = src.unread := bytes_marksFrom _ _

structure Consumes (src : Source) (read : Track) (later : Source) : Prop where
  marks : src.marks = read ++ later.marks
  lastLine : later.lastLine = src.lastLine
  follows : later.follows = src.follows

namespace Consumes

variable {read more : Track}

theorem refl (src : Source) : Consumes src [] src := ⟨rfl,rfl,rfl⟩

theorem trans (first : Consumes src read later) (second : Consumes later more last) :
    Consumes src (read ++ more) last :=
  ⟨by rw [first.marks,second.marks,List.append_assoc],second.lastLine.trans first.lastLine,
    second.follows.trans first.follows⟩

theorem unread (consumes : Consumes src read later) : src.unread = read.bytes ++ later.unread := by
  rw [← bytes_marks,consumes.marks,Track.bytes_append,bytes_marks]

end Consumes

theorem settle_consumes (src : Source) : Consumes src [] src.settle := by
  unfold settle
  split
  next text => exact ⟨by simp [marks,marksFrom,text],by simp [lastLine,lineBehind,text],rfl⟩
  next glyph rest text => exact ⟨by simp [marks,marksFrom,text],by simp [lastLine,lineBehind,text],rfl⟩

def Settled (src : Source) : Prop := src.line = src.marks.line src.lastLine

theorem next_consumes (text : src.text = glyph :: rest) :
    src.next.1 = some glyph.byte ∧ Consumes src [(glyph.byte,src.line + glyph.joins)] src.next.2 := by
  unfold next settle
  rw [text]
  exact ⟨rfl,by simp [marks,marksFrom,text],by simp [lastLine,lineBehind,text],rfl⟩

theorem eat_consumes (eaten : src.eat expected = (found,later)) :
    ∃ read, Consumes src read later ∧ read.bytes = if found then [expected] else [] := by
  unfold eat at eaten
  dsimp only at eaten
  split at eaten
  next same =>
    cases eaten
    obtain ⟨glyph,text,rfl⟩ := Option.map_eq_some_iff.mp (eq_of_beq same)
    obtain ⟨rest,text⟩ := List.head?_eq_some_iff.mp text
    exact ⟨_,(settle_consumes src).trans (next_consumes text).2,rfl⟩
  next =>
    cases eaten
    exact ⟨[],settle_consumes src,rfl⟩

section Scanning

variable (keeps : σ → Track → Prop) (post : α → Track → Prop)
  (char : ∀ state read b line, keeps state read → (m.onChar state line b).Leads keeps post read (b,line))
  (ending : ∀ state read, keeps state read → post (m.onEnd state) read)

include char ending

theorem drive_spec {read : Track} (start : keeps state read) (line : UInt32) (text : List Glyph) :
    ∃ more, marksFrom line text =
        more ++ marksFrom (drive m state line text).2.1 ((drive m state line text).2.2.getD []) ∧
      lineBehind (drive m state line text).2.1 ((drive m state line text).2.2.getD []) = lineBehind line text ∧
      post (drive m state line text).1 (read ++ more) := by
  induction text generalizing state read line with
  | nil => exact ⟨[],rfl,rfl,by simpa [drive] using ending state read start⟩
  | cons glyph rest ih =>
    have step := char state read glyph.byte (line + glyph.joins) start
    rw [drive,marksFrom]
    cases move : m.onChar state (line + glyph.joins) glyph.byte with
    | take next =>
      rw [move] at step
      obtain ⟨more,same,behind,holds⟩ := ih step (lineAfter (line + glyph.joins) glyph.byte)
      exact ⟨(glyph.byte,line + glyph.joins) :: more,by rw [same]; rfl,behind,by simpa using holds⟩
    | last result =>
      rw [move] at step
      exact ⟨[(glyph.byte,line + glyph.joins)],rfl,rfl,step⟩
    | leave result =>
      rw [move] at step
      exact ⟨[],by simp [marksFrom],by simp [lineBehind],by simpa [Move.Leads] using step⟩

/-- What a scanner comes to, from what its states keep of the characters read. -/
theorem scan_spec (state : σ) (start : keeps state []) (src : Source) :
    ∃ read, Consumes src read (src.scan m state).2 ∧ post (src.scan m state).1 read := by
  obtain ⟨read,same,behind,holds⟩ := drive_spec keeps post char ending start src.line src.text
  unfold scan
  generalize drive m state src.line src.text = driven at same behind holds
  rcases driven with ⟨result,line,_ | text⟩
  · refine ⟨read,⟨same,?_,rfl⟩,holds⟩
    simpa [lastLine,settle,lineBehind] using congrArg (· + src.tail) behind
  · exact ⟨read,⟨same,congrArg (· + src.tail) behind,rfl⟩,holds⟩

end Scanning

theorem scan_settled (never : ∀ state line b result, m.onChar state line b ≠ .last result)
    (state : σ) (src : Source) : (src.scan m state).2.Settled := by
  have stops text state line :
      ∀ rest, (drive m state line text).2.2 = some rest →
        ((marksFrom (drive m state line text).2.1 rest).head?.map Prod.snd) = some (drive m state line text).2.1 := by
    induction text generalizing state line with
    | nil => simp [drive]
    | cons glyph rest ih =>
      rw [drive]
      cases move : m.onChar state (line + glyph.joins) glyph.byte with
      | take next => exact ih next _
      | last result => exact absurd move (never _ _ _ _)
      | leave result => rintro _ ⟨⟩; simp [marksFrom]
  have stops := stops src.text state src.line
  unfold scan
  generalize drive m state src.line src.text = driven at stops
  rcases driven with ⟨result,line,_ | text⟩
  · simp [Settled,Track.line,marks,marksFrom,lastLine,lineBehind,settle]
  · simp [Settled,Track.line,marks,stops text rfl]

theorem scan_step (m : Scanner σ α) (state : σ) (src : Source) : src.scan m state = match src.text with
      | [] => (m.onEnd state,src.settle)
      | glyph :: _ =>
        match m.onChar state (src.line + glyph.joins) glyph.byte with
        | .take state => src.next.2.scan m state
        | .last result => (result,src.next.2)
        | .leave result => (result,src.settle) := by
  rcases src with ⟨name,line,lineStart,_ | ⟨glyph,rest⟩,tail,openConditionals,ended,follows⟩
  · rfl
  · dsimp only
    unfold scan
    rw [drive]
    cases m.onChar state (line + glyph.joins) glyph.byte <;> rfl

theorem scan_take {next : σ}
    (text : src.text = glyph :: rest) (takes : m.onChar state (src.line + glyph.joins) glyph.byte = .take next) :
    src.scan m state = src.next.2.scan m next := by
  rw [scan_step,text]
  simp only [takes]

end Source

namespace Lexer

open Source
open Track

def continues (latest b : UInt8) : Bool :=
  isNamePart b || b == '.'.toUInt8 ||
    ((b == '+'.toUInt8 || b == '-'.toUInt8) && "eEpP".contains (char latest))

/-- A number begins with a digit or with a dot and a digit. -/
def Numeric (text : Bytes) : Prop :=
  text.IsChain (continues · ·) ∧ ∃ b rest, text = b :: rest ∧
    (isDigit b ∨ b = '.'.toUInt8 ∧ rest.head?.any isDigit)

/-- The quote closes a text at its end and not before; `escaped` says whether a backslash protects its
first character. -/
def closes (quote : UInt8) : Bool → Bytes → Bool
  | _, [] => false
  | escaped, b :: rest =>
    b != newline &&
      if escaped then closes quote false rest
      else if b == quote then rest.isEmpty
      else closes quote (b == '\\'.toUInt8) rest

def opening (wide : Bool) (quote : UInt8) : Bytes := if wide then ['L'.toUInt8,quote] else [quote]

inductive Lexeme : Bytes → TokenKind → Prop where
  | name {b : UInt8} {rest : Bytes} (start : isNameStart b) (parts : ∀ c ∈ rest, isNamePart c) :
      Lexeme (b :: rest) (.ident (Utf8.lossy (b :: rest)))
  | number {text : Bytes} (numeric : Numeric text) : Lexeme text (.number (String.ofList (text.map char)))
  | string {wide : Bool} {body : Bytes} (closed : closes '"'.toUInt8 false body) :
      Lexeme (opening wide '"'.toUInt8 ++ body) (.string (opening wide '"'.toUInt8 ++ body))
  | char {wide : Bool} {body : Bytes} (closed : closes '\''.toUInt8 false body) :
      Lexeme (opening wide '\''.toUInt8 ++ body) (.char (opening wide '\''.toUInt8 ++ body))
  | punct (p : Punct) : Lexeme (TokenKind.punct p).bytes (.punct p)

theorem quotedText_spec (quote : UInt8) (opening : Bytes) (src : Source) :
    ∃ read, Consumes src read (quotedText quote opening src).2 ∧ ∀ text, (quotedText quote opening src).1 = .ok text →
      text = opening ++ read.bytes ∧ closes quote false read.bytes := by
  -- what is read so far leaves the rest to close the text, protected or not
  obtain ⟨read,consumes,holds⟩ := scan_spec (m := quoted quote)
    (fun state read => state.1 = (opening ++ read.bytes).reverse ∧
      ∀ rest, closes quote false (read.bytes ++ rest) = closes quote state.2 rest)
    (fun result read => ∀ text, result = some text → text = opening ++ read.bytes ∧ closes quote false read.bytes)
    (by
      rintro ⟨state,escaped⟩ read b line ⟨same,rest⟩
      cases same
      have step more := rest (b :: more)
      dsimp only [quoted]
      split_ifs with newline protects ends
      · rintro _ ⟨⟩
      · exact ⟨by simp,fun more => by simpa [closes,protects,bne,newline] using step more⟩
      · rintro _ ⟨⟩
        exact ⟨by simp,by simpa [closes,protects,bne,newline,ends] using step []⟩
      · exact ⟨by simp,fun more => by simpa [closes,protects,bne,newline,ends] using step more⟩)
    (by rintro state read _ _ ⟨⟩) (opening.reverse,false) (by simp) src
  refine ⟨read,?_,?_⟩ <;> unfold quotedText <;> dsimp only [stream_scan] <;> split
  next => exact consumes
  next => exact consumes
  next text found =>
    rintro _ ⟨⟩
    exact holds _ found
  next => rintro _ ⟨⟩

theorem ofChar?_bytes (found : Punct.ofChar? (char b) = some p) : (TokenKind.punct p).bytes = [b] := by
  unfold Punct.ofChar? at found
  split at found <;> cases found
  all_goals
    rename_i same
    obtain rfl := eq_of_char same
    decide +kernel

theorem extend?_bytes (found : p.extend? (char b) = some longer) :
    (TokenKind.punct longer).bytes = (TokenKind.punct p).bytes ++ [b] := by
  unfold Punct.extend? at found
  split at found <;> cases found
  all_goals
    rename_i same
    obtain rfl := eq_of_char same
    decide +kernel

theorem punct_spec (p : Punct) (src : Source) : ∃ read, Consumes src read (src.scan punct p).2 ∧
    (TokenKind.punct (src.scan punct p).1).bytes = (TokenKind.punct p).bytes ++ read.bytes := by
  refine scan_spec (m := punct) (fun q read => (TokenKind.punct q).bytes = (TokenKind.punct p).bytes ++ read.bytes)
    (fun q read => (TokenKind.punct q).bytes = (TokenKind.punct p).bytes ++ read.bytes) ?_ (fun _ _ same => same)
    p (by simp) src
  intro q read b line same
  dsimp only [punct]
  split
  next => exact same
  next longer grown =>
    have grown := (extend?_bytes grown).trans (congrArg (· ++ [b]) same)
    split_ifs <;> simpa [Move.Leads] using grown

theorem map_eq_ok {x : Except ε α} {b : β} (found : x.map f = .ok b) : ∃ a, x = .ok a ∧ b = f a := by
  cases x with
  | ok a => exact ⟨a,rfl,(Except.ok.inj found).symm⟩
  | error e => cases found

/-- What is read from a place on spells the token that is found. -/
def Reading (src : Source) (found : Except LexFault TokenKind × Source) : Prop :=
  ∃ read, Consumes src read found.2 ∧ ∀ kind, found.1 = .ok kind → Lexeme read.bytes kind

variable {read : Track}

section

variable (consumes : Consumes src read behind)

include consumes

theorem Reading.ok (lexeme : Lexeme read.bytes kind) : Reading src (.ok kind,behind) :=
  ⟨read,consumes,by rintro _ ⟨⟩; exact lexeme⟩

theorem Reading.error : Reading src (.error fault,behind) :=
  ⟨read,consumes,by rintro _ ⟨⟩⟩

theorem Reading.punct (spelled : (TokenKind.punct p).bytes = read.bytes) : Reading src (.ok (.punct p),behind) :=
  .ok consumes (spelled ▸ .punct p)

theorem literal_spec (wide : Bool) (opens : read.bytes = opening wide quote)
    (lexeme : ∀ body, closes quote false body →
      Lexeme (opening wide quote ++ body) (make (opening wide quote ++ body))) :
    Reading src ((quotedText quote (opening wide quote) behind).1.map make,
      (quotedText quote (opening wide quote) behind).2) := by
  obtain ⟨body,rest,spelled⟩ := quotedText_spec quote (opening wide quote) behind
  refine ⟨read ++ body,consumes.trans rest,fun kind found => ?_⟩
  obtain ⟨text,read_text,rfl⟩ := map_eq_ok found
  obtain ⟨rfl,closed⟩ := spelled text read_text
  rw [bytes_append,opens]
  exact lexeme _ closed

theorem number_spec {state : Bytes} (begun : read.bytes = state.reverse) (numeric : Numeric state.reverse) :
    Reading src (.ok (.number (String.ofList ((behind.scan number state).1.map char))),
      (behind.scan number state).2) := by
  obtain ⟨chain,b,rest,same,start⟩ := numeric
  obtain ⟨more,others,text,chain⟩ := scan_spec (m := number)
    (fun now read => now = (state.reverse ++ read.bytes).reverse ∧ now.IsChain (fun b latest => continues latest b))
    (fun text read => text = state.reverse ++ read.bytes ∧ text.IsChain (continues · ·))
    (by
      rintro (_ | ⟨latest,now⟩) read b line ⟨now_eq,chain⟩
      · simp [same] at now_eq
      dsimp only [number]
      split_ifs with more
      · exact ⟨by simp [now_eq],List.isChain_cons_cons.mpr ⟨more,chain⟩⟩
      · exact ⟨by simp [now_eq],List.isChain_reverse.mpr chain⟩)
    (by
      rintro now read ⟨now_eq,chain⟩
      exact ⟨by simp [number,now_eq],List.isChain_reverse.mpr chain⟩)
    state ⟨by simp,List.isChain_reverse.mp chain⟩ behind
  refine .ok (consumes.trans others) ?_
  rw [bytes_append,begun,← text]
  refine .number ⟨chain,b,rest ++ more.bytes,by rw [text,same]; rfl,start.imp_right fun ⟨dot,digit⟩ => ⟨dot,?_⟩⟩
  cases rest with
  | nil => cases digit
  | cons => exact digit

theorem afterDot_spec (dot : read.bytes = ['.'.toUInt8]) : Reading src (afterDot behind) := by
  have settled := consumes.trans (settle_consumes behind)
  unfold afterDot
  dsimp only [stream_settle,stream_scan]
  split_ifs with digit
  · cases text : behind.settle.text with
    | nil => simp [head?,text] at digit
    | cons glyph rest =>
      have digit : isDigit glyph.byte := by simpa [head?,text] using digit
      have more : continues '.'.toUInt8 glyph.byte := by simp [continues,isNamePart,digit]
      have taken : number.onChar ['.'.toUInt8] (behind.settle.line + glyph.joins) glyph.byte =
          .take [glyph.byte,'.'.toUInt8] := if_pos more
      rw [numberText,stream_scan,scan_take text taken]
      exact number_spec (settled.trans (next_consumes text).2) (by simp [dot])
        ⟨by simpa using more,'.'.toUInt8,[glyph.byte],by simp,.inr ⟨rfl,digit⟩⟩
  · obtain ⟨more,others,most,same⟩ := scan_spec (m := dots)
      (fun count read => count ≤ 2 ∧ '.'.toUInt8 :: read.bytes = List.replicate count '.'.toUInt8)
      (fun count read => count ≤ 3 ∧ '.'.toUInt8 :: read.bytes = List.replicate count '.'.toUInt8)
      (by
        rintro count read b line ⟨most,same⟩
        have longer (dot : ¬ (b != '.'.toUInt8) = true) : '.'.toUInt8 :: bytes (read ++ [(b,line)]) =
            List.replicate (count + 1) '.'.toUInt8 := by
          have dot : b = '.'.toUInt8 := by simpa using dot
          simp [List.replicate_succ',← same,dot]
        dsimp only [dots]
        split_ifs with other room
        · exact ⟨by omega,same⟩
        · exact ⟨by omega,longer other⟩
        · exact ⟨by omega,longer other⟩)
      (fun count read ⟨most,same⟩ => ⟨by simp only [dots]; omega,same⟩) 1 (by simp) behind.settle
    have all := settled.trans others
    have text : (read ++ [] ++ more).bytes = List.replicate (behind.settle.scan dots 1).1 '.'.toUInt8 := by
      simpa [dot] using same
    generalize behind.settle.scan dots 1 = scanned at all text most same
    obtain ⟨count,later⟩ := scanned
    dsimp only at text same most
    match count with
    | 0 => cases same
    | 1 => exact .punct all (.trans (by decide +kernel) text.symm)
    | 2 => exact .error all
    | 3 => exact .punct all (.trans (by decide +kernel) text.symm)
    | count + 4 => exact absurd most (by simp)

theorem afterFirst_spec (first : read.bytes = [b]) : Reading src (afterFirst b behind) := by
  unfold afterFirst
  split_ifs with digit double single
  · exact number_spec consumes first ⟨.singleton _,b,[],rfl,.inl digit⟩
  · rw [eq_of_beq double] at first ⊢
    exact literal_spec consumes false first fun _ => .string
  · rw [eq_of_beq single] at first ⊢
    exact literal_spec consumes false first fun _ => .char
  · split
    next => exact .error consumes
    next found => exact afterDot_spec consumes (first.trans ((ofChar?_bytes found).symm.trans (by decide +kernel)))
    next p _ found =>
      have spelled := (ofChar?_bytes found).trans first.symm
      dsimp only [stream_scan]
      split_ifs
      · obtain ⟨more,others,text⟩ := punct_spec p behind
        exact .punct (consumes.trans others) (by rw [text,spelled,bytes_append])
      · exact .punct consumes spelled

end

theorem word_spec (head : src.head? = some b) (start : isNameStart b) : Reading src (word src) := by
  obtain ⟨glyph,text,rfl⟩ := Option.map_eq_some_iff.mp head
  obtain ⟨rest,text⟩ := List.head?_eq_some_iff.mp text
  have taken : (span isNamePart).onChar [] (src.line + glyph.joins) glyph.byte = .take [glyph.byte] :=
    if_pos (by simp [isNamePart,start])
  obtain ⟨more,others,same,parts⟩ := scan_spec (m := span isNamePart)
    (fun state read => state = (glyph.byte :: read.bytes).reverse ∧ ∀ c ∈ read.bytes, isNamePart c)
    (fun name read => name = glyph.byte :: read.bytes ∧ ∀ c ∈ read.bytes, isNamePart c)
    (by
      rintro _ read c line ⟨rfl,parts⟩
      dsimp only [span]
      split_ifs with part
      · exact ⟨by simp,by simpa [or_imp,forall_and] using ⟨parts,part⟩⟩
      · exact ⟨by simp,parts⟩)
    (by
      rintro _ read ⟨rfl,parts⟩
      exact ⟨by simp [span],parts⟩) [glyph.byte] (by simp) src.next.2
  have named := (next_consumes text).2.trans others
  unfold word
  rw [stream_scan,scan_take text taken]
  generalize src.next.2.scan (span isNamePart) [glyph.byte] = scanned at same named
  obtain ⟨_,behind⟩ := scanned
  cases same
  dsimp only [stream_eat]
  split_ifs with isL
  · obtain ⟨letter,alone⟩ := List.cons.inj (eq_of_beq isL)
    split
    next double =>
      obtain ⟨quote,opened,bytes⟩ := eat_consumes double
      exact literal_spec (named.trans opened) true (by simp [bytes,letter,alone,opening]) fun _ => .string
    next noDouble =>
      obtain ⟨none,kept,bytes⟩ := eat_consumes noDouble
      split
      next single =>
        obtain ⟨quote,opened,bytes'⟩ := eat_consumes single
        exact literal_spec (named.trans (kept.trans opened)) true (by simp [bytes,bytes',letter,alone,opening])
          fun _ => .char
      next noSingle =>
        obtain ⟨none',kept',bytes'⟩ := eat_consumes noSingle
        refine .ok (named.trans (kept.trans kept')) ?_
        simpa [bytes,bytes'] using Lexeme.name start parts
  · exact .ok named (.name start parts)

theorem finish_spec (reading : Reading src found) (line : UInt32)
    (space : Bool) : ∃ read, Consumes src read (finish line space found).2 ∧
      ∀ tok, (finish line space found).1 = .ok tok → tok.line = line ∧ Lexeme read.bytes tok.kind := by
  obtain ⟨read,consumes,lexeme⟩ := reading
  rcases found with ⟨fault | kind,later⟩
  · exact ⟨read,consumes,by rintro _ ⟨⟩⟩
  · refine ⟨read,⟨consumes.marks,consumes.lastLine,consumes.follows⟩,?_⟩
    rintro _ ⟨⟩
    exact ⟨rfl,lexeme kind rfl⟩

theorem tokenHere_spec (text : src.text = glyph :: rest) (space : Bool) :
    ∃ read, Consumes src read (tokenHere space src).2 ∧
      ∀ tok, (tokenHere space src).1 = .ok tok → tok.line = src.line ∧ Lexeme read.bytes tok.kind := by
  have head : src.head? = some glyph.byte := by simp [head?,text]
  refine finish_spec ?_ _ _
  rw [stream_head?,stream_next,head]
  split_ifs with start
  · exact word_spec head start
  · obtain ⟨first,taken⟩ := next_consumes text
    rcases read : src.next with ⟨b,later⟩
    rw [read] at first taken
    cases first
    exact afterFirst_spec taken rfl

/-- Line ends stop the gap only where they are asked for, and a slash is read before it is a token. -/
theorem gap_spec (newlines : Bool) (state : Bool × Bool) (src : Source) : ∃ read,
    Consumes src read (src.scan (gap newlines) (.blank state.1 state.2)).2 ∧
      ((src.scan (gap newlines) (.blank state.1 state.2)).1.1 = .newline → newlines = true) ∧
      ∀ line space, (src.scan (gap newlines) (.blank state.1 state.2)).1.1 = .slash line space →
        ∃ before, read = before ++ [('/'.toUInt8,line)] := by
  refine scan_spec (m := gap newlines)
    (fun state read => ∀ line space fresh, state = .slash line space fresh → ∃ before, read = before ++ [('/'.toUInt8,line)])
    (fun found read => (found.1 = .newline → newlines = true) ∧
      ∀ line space, found.1 = .slash line space → ∃ before, read = before ++ [('/'.toUInt8,line)]) ?_ ?_ (.blank state.1 state.2) (by simp) src
  · rintro (⟨space,fresh⟩ | ⟨start,space,fresh⟩ | fresh | ⟨start,fresh,star⟩) read b line slash
    all_goals
      dsimp only [gap,blankMove]
      split_ifs <;> simp_all [Move.Leads]
  · rintro (⟨space,fresh⟩ | ⟨start,space,fresh⟩ | fresh | ⟨start,fresh,star⟩) read slash <;> simp_all [gap]

theorem gap_settled (newlines : Bool) (state : GapState) (src : Source) :
    (src.scan (gap newlines) state).2.Settled := by
  refine scan_settled ?_ state src
  rintro (⟨space,fresh⟩ | ⟨start,space,fresh⟩ | fresh | ⟨start,fresh,star⟩) line b result
  all_goals
    dsimp only [gap,blankMove]
    split_ifs <;> simp

/-- What the lexer delivers: a token that is spelled, or the end of the line or the file. -/
def Delivers (newlines : Bool) (text : Bytes) (kind : TokenKind) : Prop :=
  Lexeme text kind ∨ text = [] ∧ (kind = .eof ∨ kind = .newline ∧ newlines = true)

theorem nextToken_spec (newlines : Bool) (src : Source) : ∃ gap read,
    Consumes src (gap ++ read) (nextToken newlines src).2 ∧
      ∀ tok, (nextToken newlines src).1 = .ok tok → Delivers newlines read.bytes tok.kind ∧
        tok.line = line (read ++ (nextToken newlines src).2.marks) src.lastLine := by
  obtain ⟨gap,passed,lineEnd,slash⟩ := gap_spec newlines (false,src.lineStart) src
  have settled := gap_settled newlines (.blank false src.lineStart) src
  unfold nextToken
  rw [stream_scan]
  generalize src.scan (Lexer.gap newlines) (.blank false src.lineStart) = scanned at *
  obtain ⟨⟨ending,fresh⟩,behind⟩ := scanned
  obtain ⟨there,here⟩ : Consumes src gap (CharStream.restart fresh behind) ∧ (CharStream.restart fresh behind).Settled :=
    ⟨⟨passed.marks,passed.lastLine,passed.follows⟩,settled⟩
  dsimp only at lineEnd slash ⊢
  generalize CharStream.restart fresh behind = place at there here ⊢
  rw [Settled,there.lastLine] at here
  cases ending with
  | unterminated line => exact ⟨gap,[],there.trans (.refl _),by rintro _ ⟨⟩⟩
  | newline =>
    refine ⟨gap,[],there.trans (.refl _),?_⟩
    rintro _ ⟨⟩
    exact ⟨.inr ⟨rfl,.inr ⟨rfl,lineEnd rfl⟩⟩,here⟩
  | eof space =>
    refine ⟨gap,[],there.trans (.refl _),?_⟩
    rintro _ ⟨⟩
    exact ⟨.inr ⟨rfl,.inl rfl⟩,here⟩
  | slash line space =>
    obtain ⟨before,rfl⟩ := slash line space rfl
    obtain ⟨more,others,text⟩ := punct_spec .slash place
    have all := there.trans others
    rw [List.append_assoc] at all
    refine ⟨before,('/'.toUInt8,line) :: more,⟨all.marks,all.lastLine,all.follows⟩,?_⟩
    rintro _ ⟨⟩
    have spelled := Lexeme.punct (place.scan punct .slash).1
    rw [text,show (TokenKind.punct .slash).bytes = ['/'.toUInt8] by decide +kernel] at spelled
    exact ⟨.inl spelled,rfl⟩
  | token space =>
    dsimp only
    cases text : place.text with
    | nil =>
      have ended := settle_consumes place
      have found : tokenHere space place = (.ok ⟨.eof,place.line,space,place.settle.lineStart,false⟩,
          { place.settle with lineStart := false }) := by
        simp [tokenHere,head?,next,settle,text,finish]
      rw [found]
      have all := there.trans ended
      refine ⟨gap,[],⟨all.marks,all.lastLine,all.follows⟩,?_⟩
      rintro _ ⟨⟩
      exact ⟨.inr ⟨rfl,.inl rfl⟩,here.trans (by rw [ended.marks]; rfl)⟩
    | cons glyph rest =>
      obtain ⟨read,consumes,spelled⟩ := tokenHere_spec text space
      refine ⟨gap,read,there.trans consumes,fun tok found => ?_⟩
      obtain ⟨line,lexeme⟩ := spelled tok found
      exact ⟨.inl lexeme,by rw [line,here,consumes.marks]⟩

end Lexer
end OnePass
