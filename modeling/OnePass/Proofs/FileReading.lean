import OnePass.Preprocess.Directive

/-! # Reading on in a file

A file remembers how many conditionals were open when it was entered, however far it is read. -/
namespace OnePass

namespace Source

attribute [grind =] stream_scan stream_settle stream_next stream_eat stream_restart

@[grind =] theorem settle_open (src : Source) : src.settle.openConditionals = src.openConditionals := by
  unfold settle
  split <;> rfl

@[grind =] theorem next_open (src : Source) : src.next.2.openConditionals = src.openConditionals := by
  unfold next
  grind

@[grind =] theorem eat_open (b : UInt8) (src : Source) : (src.eat b).2.openConditionals = src.openConditionals := by
  unfold eat
  grind

@[grind =] theorem scan_open (m : Scanner σ α) (state : σ) (src : Source) :
    (src.scan m state).2.openConditionals = src.openConditionals := by
  unfold scan
  grind

end Source

namespace Lexer

@[grind =] theorem quotedText_open (quote : UInt8) (opening : Bytes) (src : Source) :
    (quotedText quote opening src).2.openConditionals = src.openConditionals := by
  grind [quotedText]

@[grind =] theorem word_open (src : Source) : (word src).2.openConditionals = src.openConditionals := by
  unfold word
  dsimp only
  split
  · split
    · grind
    · split <;> grind
  · grind

@[grind =] theorem afterFirst_open (b : UInt8) (src : Source) :
    (afterFirst b src).2.openConditionals = src.openConditionals := by
  grind [afterFirst,afterDot,numberText]

@[grind =] theorem finish_open (line : UInt32) (space : Bool) (found : Except LexFault TokenKind × Source) :
    (finish line space found).2.openConditionals = found.2.openConditionals := by
  obtain ⟨_ | _,_⟩ := found <;> rfl

@[grind =] theorem nextToken_open (newlines : Bool) (src : Source) :
    (nextToken newlines src).2.openConditionals = src.openConditionals := by
  grind [nextToken,tokenHere]

@[grind =] theorem skipBlanks_open (src : Source) : (skipBlanks src).openConditionals = src.openConditionals := by
  grind [skipBlanks]

@[grind =] theorem skipLine_open (src : Source) : (skipLine src).openConditionals = src.openConditionals := by
  grind [skipLine]

theorem includeOperand_open (src : Source) : (includeOperand src).2.openConditionals = src.openConditionals := by
  grind [includeOperand]

end Lexer

namespace Directive

@[grind =] theorem skippedWord_open (src : Source) : (skippedWord src).2.openConditionals = src.openConditionals := by
  grind [skippedWord]

theorem skipLine_open (depth : Nat) (src : Source) : (skipLine depth src).2.openConditionals = src.openConditionals := by
  unfold skipLine
  dsimp only
  split
  · grind
  · split
    · grind
    · split
      · grind
      · split <;> grind

end Directive

theorem Preprocessor.current?_open {pp : Preprocessor} (current : pp.current? = some src) :
    ∃ old files, pp.files = old :: files ∧ src.openConditionals = old.openConditionals := by
  unfold Preprocessor.current? at current
  cases held : pp.files with
  | nil => simp [held] at current
  | cons old files =>
    refine ⟨old,files,rfl,?_⟩
    rw [held] at current
    cases current
    dsimp only
    split
    · rfl
    · split <;> rfl

end OnePass
