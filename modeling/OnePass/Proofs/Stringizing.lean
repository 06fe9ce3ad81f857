import OnePass.Preprocess.Expand
import OnePass.Proofs.Lexeme

/-! # Stringizing

Decoding a literal gives back the text that was quoted. To stringize tokens is to quote their spelling: outside of
literals no token has a character that a backslash would have to protect. -/
namespace OnePass.Expand

open Literal List Lexer Bool Ascii

/-! ## Quoting -/

def isVerbatim (b : UInt8) : Bool := !(b == '"'.toUInt8 || b == '\\'.toUInt8)

def protect (text : Bytes) : Bytes :=
  text.flatMap fun b => if b == '"'.toUInt8 || b == '\\'.toUInt8 then ['\\'.toUInt8,b] else [b]

theorem quote_eq (text : Bytes) : quote text = '"'.toUInt8 :: (protect text ++ ['"'.toUInt8]) := rfl

theorem protect_append (first rest : Bytes) : protect (first ++ rest) = protect first ++ protect rest :=
  flatMap_append

theorem protect_verbatim (plain : isVerbatim b) (rest : Bytes) : protect (b :: rest) = b :: protect rest := by
  rw [protect,flatMap_cons,if_neg (by simpa [isVerbatim] using plain)]
  rfl

theorem protect_special (special : isVerbatim b = false) (rest : Bytes) :
    protect (b :: rest) = '\\'.toUInt8 :: b :: protect rest := by
  rw [protect,flatMap_cons,if_pos (by rwa [isVerbatim,not_eq_false'] at special)]
  rfl

theorem protect_eq_self (plain : ∀ b ∈ text, isVerbatim b) : protect text = text := by
  induction text with
  | nil => rfl
  | cons b rest ih =>
    obtain ⟨here,rest⟩ := forall_mem_cons.mp plain
    rw [protect_verbatim here,ih rest]

theorem decodeFrom_protect (text run : Bytes) (out : List UInt32) :
    decodeFrom false (.plain run) out (protect text) =
      .ok (out.reverse ++ runUnits false run ++ text.map (·.toUInt32)) := by
  induction text generalizing run out with
  | nil => simp [protect,decodeFrom,decodeEnd]
  | cons b rest ih =>
    cases plain : isVerbatim b with
    | true =>
      have other : (b == '\\'.toUInt8) = false := by
        simp only [isVerbatim,not_eq_true',or_eq_false_iff] at plain
        exact plain.2
      rw [protect_verbatim plain,decodeFrom,decodeStep,plainStep,other]
      simp [ih,runUnits]
    | false =>
      have unit out : decodeStep false out .escape b = .ok (.plain [],b.toUInt32 :: out) := by
        simp only [isVerbatim,not_eq_false',or_eq_true,beq_iff_eq] at plain
        rcases plain with rfl | rfl <;> rfl
      rw [protect_special plain]
      change decodeFrom false .escape ((runUnits false run).reverse ++ out) (b :: protect rest) = _
      rw [decodeFrom,unit]
      simp [ih,runUnits]

theorem decode_quote (text : Bytes) : decode (quote text) = .ok ⟨text.map (·.toUInt32),false⟩ := by
  obtain ⟨first,rest,body⟩ : ∃ first rest, protect text ++ ['"'.toUInt8] = first :: rest := by
    cases protect text <;> simp
  have inner : (first :: rest).dropLast = protect text := by rw [← body,dropLast_concat]
  rw [quote_eq,body]
  change (decodeFrom false (.plain []) [] (first :: rest).dropLast).map _ = _
  rw [inner,decodeFrom_protect]
  rfl

/-! ## Tokens -/

theorem verbatim_of_isNamePart (part : isNamePart b) : isVerbatim b := by
  by_contra special
  simp only [isVerbatim,not_eq_true,not_eq_false',or_eq_true,beq_iff_eq] at special
  rcases special with rfl | rfl <;> cases part

theorem verbatim_of_high (b : UInt8) (high : 0x80 ≤ b.toNat) : isVerbatim b :=
  verbatim_of_isNamePart (by simp [isNamePart,isNameStart,UInt8.le_iff_toNat_le,high])

theorem verbatim_of_continues (next : continues latest b) : isVerbatim b := by
  simp only [continues,or_eq_true,and_eq_true,beq_iff_eq] at next
  rcases next with (part | rfl) | ⟨rfl | rfl,_⟩
  · exact verbatim_of_isNamePart part
  all_goals decide

theorem verbatim_of_numeric (numeric : Lexer.Numeric text) : ∀ b ∈ text, isVerbatim b := by
  obtain ⟨chain,first,rest,rfl,start⟩ := numeric
  refine forall_mem_cons.mpr ⟨?_,fun b member => ?_⟩
  · rcases start with digit | ⟨rfl,_⟩
    · exact verbatim_of_isNamePart (by simp [isNamePart,digit])
    · decide
  · obtain ⟨i,bound,rfl⟩ := getElem_of_mem member
    exact verbatim_of_continues (isChain_iff_getElem.mp chain i (Nat.succ_lt_succ bound))

/-- Kinds of tokens that the lexer delivers. -/
def Lexed (kind : TokenKind) : Prop :=
  ∃ newlines src tok later, nextToken newlines (src : Source) = (.ok tok,later) ∧ tok.kind = kind

theorem tokensUntil_lexed (newlines : Bool) (stop : Token → Bool) (fuel : Nat) (read : List Token) (src : Source)
    (before : ∀ tok ∈ read, Lexed tok.kind) :
    ∀ tok ∈ (tokensUntil newlines stop fuel read src).1, Lexed tok.kind := by
  induction fuel generalizing read src with
  | zero => simpa [tokensUntil] using before
  | succ fuel ih =>
    rw [tokensUntil]
    split
    next => simpa using before
    next tok later found =>
      have all := forall_mem_cons.mpr ⟨⟨newlines,src,tok,later,found,rfl⟩,before⟩
      split_ifs
      · exact fun tok member => all tok (mem_reverse.mp member)
      · exact ih _ _ all

theorem tokens_lexed (newlines : Bool) (src : Source) : ∀ tok ∈ (tokens newlines src).1, Lexed tok.kind :=
  tokensUntil_lexed newlines _ _ [] src (by simp)

theorem Lexed.quotedBytes (lexed : Lexed tok.kind) : Expand.quotedBytes tok = protect tok.bytes := by
  obtain ⟨newlines,src,found,later,read,kind⟩ := lexed
  obtain ⟨_,text,_,delivers⟩ := nextToken_spec newlines src
  obtain ⟨delivers,_⟩ := delivers found (by rw [read])
  rw [kind] at delivers
  have literal spelling : ((quote spelling).drop 1).dropLast = protect spelling := by
    rw [quote_eq,drop_one,tail_cons,dropLast_concat]
  have other plain : tok.kind.bytes = protect tok.kind.bytes :=
    (protect_eq_self plain).symm
  rw [Expand.quotedBytes,Token.bytes]
  generalize tok.kind = kind at delivers other
  rcases delivers with lexeme | ⟨_,rfl | ⟨rfl,_⟩⟩
  · generalize text.bytes = text at lexeme
    cases lexeme with
    | name start parts =>
      refine other (Utf8.ofString_class verbatim_of_high ?_)
      rw [TokenKind.text,Utf8.lossy,String.toList_ofList]
      refine Utf8.lossyChars_fits (forall_mem_cons.mpr ⟨?_,fun c member => verbatim_of_isNamePart (parts c member)⟩)
      exact verbatim_of_isNamePart (by simp [isNamePart,start])
    | number numeric =>
      refine other (Utf8.ofString_class verbatim_of_high fun c member => ?_)
      rw [TokenKind.text,String.toList_ofList] at member
      obtain ⟨b,there,rfl⟩ := mem_map.mp member
      exact Utf8.fits_char (verbatim_of_numeric numeric b there)
    | string | char => exact literal _
    | punct p => exact other (by cases p <;> decide +kernel)
  · exact other (by decide +kernel)
  · exact other (by decide +kernel)

/-- The spelling of tokens, with a space where white space stood between two. -/
def spelling : List Token → Bytes
  | [] => []
  | first :: rest => first.bytes ++ rest.flatMap fun tok => (if tok.space then [' '.toUInt8] else []) ++ tok.bytes

theorem protect_spaced {rest : List Token} (lexed : ∀ tok ∈ rest, Lexed tok.kind) :
    (rest.map fun tok => (if tok.space then [' '.toUInt8] else []) ++ quotedBytes tok).flatten =
      protect (rest.flatMap fun tok => (if tok.space then [' '.toUInt8] else []) ++ tok.bytes) := by
  induction rest with
  | nil => rfl
  | cons tok rest ih =>
    obtain ⟨here,rest⟩ := forall_mem_cons.mp lexed
    have blank : protect (if tok.space then [' '.toUInt8] else []) = if tok.space then [' '.toUInt8] else [] := by
      cases tok.space <;> rfl
    rw [map_cons,flatten_cons,flatMap_cons,protect_append,protect_append,ih rest,here.quotedBytes,blank]

theorem stringify_eq_quote (lexed : ∀ tok ∈ toks, Lexed tok.kind) : stringify toks = quote (spelling toks) := by
  cases toks with
  | nil => rfl
  | cons first rest =>
    obtain ⟨start,rest⟩ := forall_mem_cons.mp lexed
    rw [quote_eq,spelling,protect_append,← protect_spaced rest,← start.quotedBytes]
    rfl

/-- Decoding inverts quoting and stringizing. -/
theorem stringizing_inverted :
    (∀ toks, (∀ tok ∈ toks, Lexed tok.kind) →
      Literal.decode (stringify toks) = .ok ⟨(spelling toks).map (·.toUInt32),false⟩) ∧
    ∀ text, Literal.decode (quote text) = .ok ⟨text.map (·.toUInt32),false⟩ :=
  ⟨fun toks lexed => by rw [stringify_eq_quote lexed,decode_quote],decode_quote⟩

def sample : List Token :=
  (tokens false (Source.ofBytes "<string>" (Bytes.ofString "\"a\\n\\\"\"  +'\\\\' L\"\" x"))).1.take 4

theorem stringizing_inverted_sample : (∀ tok ∈ sample, Lexed tok.kind) ∧
    Literal.decode (stringify sample) =
      .ok ⟨(Bytes.ofString "\"a\\n\\\"\" +'\\\\' L\"\"").map (·.toUInt32),false⟩ := by
  have lexed : ∀ tok ∈ sample, Lexed tok.kind := fun tok member => tokens_lexed _ _ tok (List.mem_of_mem_take member)
  have spelled : spelling sample = Bytes.ofString "\"a\\n\\\"\" +'\\\\' L\"\"" := by decide +kernel
  exact ⟨lexed,spelled ▸ stringizing_inverted.1 sample lexed⟩

end OnePass.Expand
