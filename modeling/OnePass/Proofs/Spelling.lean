import OnePass.Proofs.Splicing

/-! # How tokens are spelled

A token is recognized by its first character: the character says whether the token is a parenthesis,
and no spelling but a punctuator's begins like a gap. So the first half of a pasted text decides what
the whole text can be. -/
namespace OnePass

open Ascii Source Bool List

variable {src later : Source} {kind left right : TokenKind}

/-- A character that begins no gap, comment, joined line or parenthesis. -/
def Ascii.isPlain (b : UInt8) : Bool :=
  !(isBlank b || b == newline || b == 0x28 || b == 0x29 || b == 0x2a || b == 0x2f || b == 0x5c)

/-- The spelling begins as the kind of the token asks for. The kinds that no text spells have none. -/
def TokenKind.isSpelled : TokenKind → Bool
  | .punct _ => true
  | .newline | .paste | .placemarker | .eof => false
  | kind => kind.bytes.head?.any isPlain

namespace Source

/-- Reading on in a source. -/
structure Reads (src later : Source) : Prop where
  unread : later.unread <:+ src.unread
  follows : later.follows = src.follows

theorem Consumes.reads {read : Track} (consumes : Consumes src read later) : Reads src later :=
  ⟨⟨read.bytes,consumes.unread.symm⟩,consumes.follows⟩

end Source

namespace Ascii

theorem isPlain_of_isNamePart (part : isNamePart b) : isPlain b := by
  simp only [isNamePart,isNameStart,isLetter,isDigit,isPlain,isBlank,newline,or_eq_true,beq_iff_eq,UInt8.le_iff_toNat_le,← UInt8.toNat_inj,not_eq_true',
    or_eq_false_iff,beq_eq_false_iff_ne,ne_eq] at part ⊢
  simp at part ⊢
  omega

end Ascii

theorem Ascii.isPlain_of_high (b : UInt8) (high : 0x80 ≤ b.toNat) : isPlain b :=
  isPlain_of_isNamePart (by simp [isNamePart,isNameStart,UInt8.le_iff_toNat_le,high])

namespace Lexer

open Source

/-- What the first character of a token tells about its kind. It opens no gap, and a comment only in
front of a slash or a star. -/
def Leads (kind : TokenKind) (b : UInt8) : Prop :=
  isBlank b = false ∧ b ≠ newline ∧ b ≠ 0x5c ∧ (kind = .punct .lparen ↔ b = 0x28) ∧
    (kind = .punct .rparen ↔ b = 0x29) ∧ (b = 0x2f → kind = .punct .slash ∨ kind = .punct .slashEq) ∧
    (b = 0x2a → kind = .punct .star ∨ kind = .punct .starEq)
  deriving Decidable

theorem leads_of_isPlain (plain : isPlain b) (other : ∀ p, kind ≠ .punct p) : Leads kind b := by
  simp only [isPlain,not_eq_true',or_eq_false_iff,beq_eq_false_iff_ne] at plain
  simp_all [Leads]

theorem punct_leads (p : Punct) : (TokenKind.punct p).bytes.head?.any fun b => decide (Leads (.punct p) b) := by
  cases p <;> decide +kernel

theorem spelled_leads (spelled : kind.isSpelled) : ∃ b rest, kind.bytes = b :: rest ∧ Leads kind b := by
  have literal (plain : kind.bytes.head?.any isPlain) (other : ∀ p, kind ≠ .punct p) :
      kind.bytes.head?.any fun b => decide (Leads kind b) := by
    obtain ⟨b,first,plain⟩ := (Option.any_eq_true _ _).mp plain
    simp [first,leads_of_isPlain plain other]
  have leads : kind.bytes.head?.any fun b => decide (Leads kind b) := by
    cases kind with
    | punct p => exact punct_leads p
    | ident _ | number _ | char _ | string _ => exact literal spelled (by simp)
    | newline | paste | placemarker | eof => cases spelled
  obtain ⟨b,first,leads⟩ := (Option.any_eq_true _ _).mp leads
  obtain ⟨rest,bytes⟩ := head?_eq_some_iff.mp first
  exact ⟨b,rest,bytes,of_decide_eq_true leads⟩

theorem ofBytes_first (plain : b ≠ 0x5c) (name : String) (text : Bytes) :
    ∃ rest, (ofBytes name (b :: text)).text = ⟨b,0⟩ :: rest :=
  ⟨_,by rw [ofBytes,splice_first (joinLength_other plain _)]; rfl⟩

theorem ofBytes_second (plain : b ≠ 0x5c) (plain' : c ≠ 0x5c) (name : String) (text : Bytes) :
    ∃ rest, (ofBytes name (b :: c :: text)).text = ⟨b,0⟩ :: ⟨c,0⟩ :: rest :=
  ⟨_,by rw [ofBytes,splice_first (joinLength_other plain _),splice_first (joinLength_other plain' _)]; rfl⟩

/-- Nothing can be pasted to a slash that makes a comment of it. -/
theorem comment_single (opens : p = .star ∨ p = .starEq ∨ p = .slash ∨ p = .slashEq) (tok : Token) :
    tokenize ((TokenKind.punct .slash).bytes ++ (TokenKind.punct p).bytes) ≠ .ok [tok] := by
  have many : (tokenize ((TokenKind.punct .slash).bytes ++ (TokenKind.punct p).bytes)).toOption.map length ≠
      some 1 := by
    rcases opens with rfl | rfl | rfl | rfl <;> decide +kernel
  intro found
  rw [found] at many
  exact many rfl

namespace Lexeme

variable {text : Bytes}

theorem numeric_plain {rest : Bytes} (numeric : Numeric (b :: rest)) : isPlain b := by
  obtain ⟨_,_,_,same,digit | ⟨dot,_⟩⟩ := numeric <;> cases same
  · exact isPlain_of_isNamePart (by simp [isNamePart,digit])
  · rw [dot]
    decide

theorem first (lexeme : Lexeme text kind) : kind.isSpelled ∧ ∃ b rest, text = b :: rest ∧ Leads kind b := by
  cases lexeme with
  | @name b rest start parts =>
    have plain : ∀ c ∈ b :: rest, isPlain c := fun c member => isPlain_of_isNamePart <| by
      rcases mem_cons.mp member with rfl | member
      · simp [isNamePart,start]
      · exact parts c member
    obtain ⟨c,more,chars⟩ := exists_cons_of_ne_nil (Utf8.lossyChars_ne_nil b rest)
    refine ⟨?_,b,rest,rfl,leads_of_isPlain (plain b (by simp)) (by simp)⟩
    rw [Utf8.lossy,chars]
    exact Utf8.ofString_head isPlain_of_high (Utf8.lossyChars_fits plain c (by simp [chars])) more
  | number numeric =>
    obtain ⟨b,rest,rfl,_⟩ := numeric.2
    have plain := numeric_plain numeric
    exact ⟨Utf8.ofString_head isPlain_of_high (Utf8.fits_char plain) _,b,rest,rfl,leads_of_isPlain plain (by simp)⟩
  | @string wide body closed => cases wide <;> exact ⟨rfl,_,_,rfl,leads_of_isPlain rfl (by simp)⟩
  | @char wide body closed => cases wide <;> exact ⟨rfl,_,_,rfl,leads_of_isPlain rfl (by simp)⟩
  | punct p =>
    have spelled : (TokenKind.punct p).isSpelled := rfl
    obtain ⟨b,rest,same,leads⟩ := spelled_leads spelled
    exact ⟨rfl,b,rest,same,leads⟩

end Lexeme

theorem nextToken_reads (newlines : Bool) (src : Source) : Reads src (nextToken newlines src).2 := by
  obtain ⟨gap,read,consumes,_⟩ := nextToken_spec newlines src
  exact consumes.reads

theorem nextToken_ok (found : nextToken newlines src = (.ok tok,later)) :
    tok.kind = .eof ∨ tok.kind = .newline ∧ newlines = true ∨
      tok.kind.isSpelled ∧ later.unread.length < src.unread.length ∧
        (tok.kind = .punct .hash → 0x23 ∈ src.unread) := by
  obtain ⟨gap,read,consumes,delivers⟩ := nextToken_spec newlines src
  rw [found] at consumes delivers
  have unread := consumes.unread
  rw [Track.bytes_append] at unread
  obtain ⟨lexeme | ⟨_,ends⟩,_⟩ := delivers tok rfl
  · obtain ⟨spelled,b,rest,text,_⟩ := lexeme.first
    refine .inr (.inr ⟨spelled,by rw [unread,text]; simp; omega,fun hash => ?_⟩)
    rw [hash] at lexeme
    generalize read.bytes = text at lexeme unread
    cases lexeme
    rw [unread]
    simp [show (TokenKind.punct .hash).bytes = [0x23] by decide +kernel]
  · exact ends.imp_right .inl

section

variable (gapless : Ascii.isBlank b = false ∧ b ≠ Ascii.newline ∧ b ≠ 0x2f)

include gapless

theorem blankMove_leave {line : UInt32} :
    blankMove newlines space fresh line b = .leave (.token space,fresh) := by
  have slash : b ≠ '/'.toUInt8 := gapless.2.2
  simp [blankMove,gapless.1,gapless.2.1,slash]

/-- A text that begins outside a gap begins with its first token. -/
theorem nextToken_gapless (text : src.text = ⟨b,joins⟩ :: rest) :
    nextToken newlines src = tokenHere false { src with line := src.line + joins, text := ⟨b,0⟩ :: rest } := by
  have none : src.scan (gap newlines) (.blank false src.lineStart) =
      ((.token false,src.lineStart),{ src with line := src.line + joins, text := ⟨b,0⟩ :: rest }) := by
    rw [scan,text,drive]
    simp only [gap,blankMove_leave gapless]
  rw [nextToken,stream_scan,stream_lineStart,none]
  rfl

theorem nextToken_first (text : src.text = ⟨b,joins⟩ :: rest) (found : nextToken newlines src = (.ok tok,later)) :
    ∃ more, Lexeme (b :: more) tok.kind := by
  rw [nextToken_gapless gapless text] at found
  have here : ({ src with line := src.line + joins, text := ⟨b,0⟩ :: rest }).text = ⟨b,0⟩ :: rest := rfl
  obtain ⟨read,consumes,spelled⟩ := tokenHere_spec here false
  rw [found] at consumes spelled
  obtain ⟨_,lexeme⟩ := spelled tok rfl
  obtain ⟨_,c,more,same,_⟩ := lexeme.first
  have unread := consumes.unread
  rw [same] at unread lexeme
  cases (cons.inj unread).1
  exact ⟨more,lexeme⟩

end

theorem nextToken_firstSlash (text : src.text = ⟨0x2f,joins⟩ :: ⟨c,more⟩ :: rest)
    (noComment : c ≠ 0x2a ∧ c ≠ 0x2f) (found : nextToken newlines src = (.ok tok,later)) :
    ∃ more, Lexeme (0x2f :: more) tok.kind := by
  have star : (c == '*'.toUInt8) = false := beq_eq_false_iff_ne.mpr noComment.1
  have slash : (c == '/'.toUInt8) = false := beq_eq_false_iff_ne.mpr noComment.2
  have none : (src.scan (gap newlines) (.blank false src.lineStart)).1 =
      (.slash (src.line + joins) false,src.lineStart) := by
    have first : blankMove newlines false src.lineStart (src.line + joins) 0x2f =
        .take (.slash (src.line + joins) false src.lineStart) := rfl
    rw [scan,text,drive]
    simp only [gap,first]
    rw [drive]
    simp only [star,slash,false_eq_true,if_false]
  rw [nextToken,stream_scan] at found
  generalize src.scan (gap newlines) (.blank false src.lineStart) = scanned at none found
  obtain ⟨_,behind⟩ := scanned
  cases none
  cases found
  obtain ⟨read,_,spelled⟩ := punct_spec .slash (CharStream.restart src.lineStart behind)
  have lexeme := Lexeme.punct ((CharStream.restart src.lineStart behind).scan punct .slash).1
  rw [spelled,show (TokenKind.punct .slash).bytes = [0x2f] by decide +kernel] at lexeme
  exact ⟨read.bytes,lexeme⟩

theorem tokensUntil_read (newlines : Bool) (stop : Token → Bool) (fuel : Nat) (read : List Token) (src : Source) :
    ∃ more, (tokensUntil newlines stop fuel read src).1 = read.reverse ++ more := by
  induction fuel generalizing read src with
  | zero => exact ⟨[],by simp [tokensUntil]⟩
  | succ fuel ih =>
    rw [tokensUntil]
    split
    · exact ⟨[],by simp⟩
    next tok _ _ =>
      split
      · exact ⟨[tok],by simp⟩
      · obtain ⟨more,same⟩ := ih (tok :: read) _
        exact ⟨tok :: more,same.trans (by simp)⟩

theorem tokenize_single {text : Bytes} (found : tokenize text = .ok [tok]) :
    ∃ later, nextToken false (ofBytes "<string>" text) = (.ok tok,later) := by
  rw [tokenize,tokens,tokensUntil] at found
  cases first : nextToken false (ofBytes "<string>" text) with
  | mk result later =>
    rw [first] at found
    cases result with
    | error e => cases found
    | ok head =>
      dsimp only at found
      by_cases ends : head.endsLine
      · rw [if_pos ends] at found
        cases found
      · rw [if_neg ends] at found
        obtain ⟨more,same⟩ := tokensUntil_read false Token.endsLine (ofBytes "<string>" text).text.length
          [head] later
        rcases rest : tokensUntil false Token.endsLine (ofBytes "<string>" text).text.length [head] later with
          ⟨all,error,last⟩
        rw [rest] at found same
        change all = [head] ++ more at same
        cases error with
        | some e => cases found
        | none =>
          have one : all.dropLast = [tok] := Except.ok.inj found
          cases more with
          | nil =>
            rw [same] at one
            cases one
          | cons next more =>
            have firsts : all.dropLast = head :: (next :: more).dropLast := by rw [same]; rfl
            cases (cons.inj (firsts.symm.trans one)).1
            exact ⟨later,rfl⟩

/-- A token that begins with a slash begins so when another one is pasted to it. -/
theorem tokenize_slash (slash : left = .punct .slash ∨ left = .punct .slashEq) (second : right.isSpelled)
    (found : tokenize (left.bytes ++ right.bytes) = .ok [tok])
    (first : nextToken false (ofBytes "<string>" (left.bytes ++ right.bytes)) = (.ok tok,later)) :
    ∃ more, Lexeme (0x2f :: more) tok.kind := by
  rcases slash with rfl | rfl
  · obtain ⟨c,more,bytes,_,_,plain,_,_,slashes,stars⟩ := spelled_leads second
    have noComment : c ≠ 0x2a ∧ c ≠ 0x2f := by
      refine ⟨fun star => ?_,fun slash => ?_⟩
      · rcases stars star with rfl | rfl <;> exact comment_single (by simp) tok found
      · rcases slashes slash with rfl | rfl <;> exact comment_single (by simp) tok found
    obtain ⟨rest,text⟩ := ofBytes_second (b := 0x2f) (by decide) plain "<string>" more
    have slash : (TokenKind.punct .slash).bytes = [0x2f] := by decide +kernel
    rw [slash,bytes] at first
    exact nextToken_firstSlash text noComment first
  · obtain ⟨rest,text⟩ := ofBytes_second (b := 0x2f) (c := 0x3d) (by decide) (by decide) "<string>" right.bytes
    have slashEq : (TokenKind.punct .slashEq).bytes = [0x2f,0x3d] := by decide +kernel
    rw [slashEq] at first
    exact nextToken_firstSlash text (by decide) first

/-- Two tokens that make one make one that is spelled, and a parenthesis only when the first is one. -/
theorem tokenize_pasted (first : left.isSpelled) (second : right.isSpelled)
    (found : tokenize (left.bytes ++ right.bytes) = .ok [tok]) : tok.kind.isSpelled ∧
      (tok.kind = .punct .lparen ↔ left = .punct .lparen) ∧ (tok.kind = .punct .rparen ↔ left = .punct .rparen) := by
  obtain ⟨later,token⟩ := tokenize_single found
  obtain ⟨b,rest,bytes,blank,newline,plain,lparen,rparen,slashes,_⟩ := spelled_leads first
  obtain ⟨more,lexeme⟩ : ∃ more, Lexeme (b :: more) tok.kind := by
    by_cases slash : b = 0x2f
    · rw [slash]
      exact tokenize_slash (slashes slash) second found token
    · obtain ⟨more,text⟩ := ofBytes_first plain "<string>" (rest ++ right.bytes)
      rw [bytes] at token
      exact nextToken_first ⟨blank,newline,slash⟩ text token
  obtain ⟨spelled,_,_,same,leads⟩ := lexeme.first
  cases same
  exact ⟨spelled,leads.2.2.2.1.trans lparen.symm,leads.2.2.2.2.1.trans rparen.symm⟩

end Lexer
end OnePass
