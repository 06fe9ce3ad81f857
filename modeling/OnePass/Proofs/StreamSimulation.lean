import Mathlib.Tactic.SplitIfs
import OnePass.Token.Lexer

/-! # The lexer on related files

The lexer sees a file through its characters only. Where two files of any kind answer alike, it reads the same
tokens from both. -/
namespace OnePass

/-- Two answers are the same, and the files behind them are still related. -/
def Alike {S T : Type} (R : S → T → Prop) (x : α × S) (y : α × T) : Prop := x.1 = y.1 ∧ R x.2 y.2

theorem Alike.split {R : S → T → Prop} {x : α × S} {y : α × T} (same : Alike R x y) :
    ∃ answer file src, x = (answer,file) ∧ y = (answer,src) ∧ R file src :=
  ⟨x.1,x.2,y.2,rfl,Prod.ext same.1.symm rfl,same.2⟩

/-- Related files answer every request for characters in the same way and stay related. -/
structure CharStream.Simulates {S T : Type} [CharStream S] [CharStream T] (R : S → T → Prop) : Prop where
  line {file src} : R file src → line file = line src
  lineStart {file src} : R file src → lineStart file = lineStart src
  restart {file src} (fresh : Bool) : R file src → R (restart fresh file) (restart fresh src)
  settle {file src} : R file src → R (settle file) (settle src)
  head? {file src} : R file src → head? file = head? src
  next {file src} : R file src → Alike R (next file) (next src)
  eat {file src} (b : UInt8) : R file src → Alike R (eat b file) (eat b src)
  scan {file src} {σ α : Type} (m : Scanner σ α) (state : σ) :
    R file src → Alike R (scan m state file) (scan m state src)

namespace Lexer

open CharStream

variable [CharStream S] [CharStream T] {R : S → T → Prop} {file : S} {src : T} (alike : Simulates R)

include alike

section

variable (related : R file src)

include related

theorem quotedText_same (quote : UInt8) (opening : Bytes) :
    Alike R (quotedText quote opening file) (quotedText quote opening src) := by
  obtain ⟨found,file,src,left,right,related⟩ := (alike.scan (quoted quote) (opening.reverse,false) related).split
  rw [quotedText,quotedText,left,right]
  cases found <;> exact ⟨rfl,related⟩

theorem literal_same (quote : UInt8) (opening : Bytes) (kind : Bytes → TokenKind) :
    Alike R ((quotedText quote opening file).map (·.map kind) id) ((quotedText quote opening src).map (·.map kind) id) := by
  obtain ⟨found,file,src,left,right,related⟩ := (quotedText_same alike related quote opening).split
  rw [left,right]
  exact ⟨rfl,related⟩

theorem numberText_same (first : UInt8) : Alike R (numberText first file) (numberText first src) := by
  obtain ⟨spelling,file,src,left,right,related⟩ := (alike.scan number [first] related).split
  rw [numberText,numberText,left,right]
  exact ⟨rfl,related⟩

theorem word_same : Alike R (word file) (word src) := by
  obtain ⟨name,file,src,left,right,related⟩ := (alike.scan (span Ascii.isNamePart) [] related).split
  rw [word,word,left,right]
  dsimp only
  split_ifs with wide
  · obtain ⟨quoted,file,src,left,right,related⟩ := (alike.eat '"'.toUInt8 related).split
    rw [left,right]
    cases quoted with
    | true => exact literal_same alike related ..
    | false =>
      obtain ⟨quoted,file,src,left,right,related⟩ := (alike.eat '\''.toUInt8 related).split
      dsimp only
      rw [left,right]
      cases quoted with
      | true => exact literal_same alike related ..
      | false => exact ⟨rfl,related⟩
  · exact ⟨rfl,related⟩

theorem afterDot_same : Alike R (afterDot file) (afterDot src) := by
  have related := alike.settle related
  unfold afterDot
  dsimp only
  rw [alike.head? related]
  split_ifs
  · obtain ⟨kind,file,src,left,right,related⟩ := (numberText_same alike related '.'.toUInt8).split
    rw [left,right]
    exact ⟨rfl,related⟩
  · obtain ⟨count,file,src,left,right,related⟩ := (alike.scan dots 1 related).split
    rw [left,right]
    dsimp only
    split <;> exact ⟨rfl,related⟩

theorem afterFirst_same (b : UInt8) : Alike R (afterFirst b file) (afterFirst b src) := by
  unfold afterFirst
  split_ifs
  · obtain ⟨kind,file,src,left,right,related⟩ := (numberText_same alike related b).split
    rw [left,right]
    exact ⟨rfl,related⟩
  · exact literal_same alike related ..
  · exact literal_same alike related ..
  · split
    · exact ⟨rfl,related⟩
    · exact afterDot_same alike related
    · next p _ _ =>
      split_ifs
      · obtain ⟨p,file,src,left,right,related⟩ := (alike.scan punct p related).split
        rw [left,right]
        exact ⟨rfl,related⟩
      · exact ⟨rfl,related⟩

end

theorem finish_same (same : Alike R found found') (line : UInt32) (space : Bool) :
    Alike R (finish line space found) (finish line space found') := by
  obtain ⟨result,file,src,rfl,rfl,related⟩ := same.split
  cases result with
  | error fault => exact ⟨rfl,related⟩
  | ok kind =>
    rw [finish,alike.lineStart related]
    exact ⟨rfl,alike.restart false related⟩

theorem tokenHere_same (related : R file src) (space : Bool) :
    Alike R (tokenHere space file) (tokenHere space src) := by
  unfold tokenHere
  rw [alike.line related,alike.head? related]
  refine finish_same alike ?_ ..
  split_ifs
  · exact word_same alike related
  · obtain ⟨b,file,src,left,right,related⟩ := (alike.next related).split
    rw [left,right]
    cases b with
    | none => exact ⟨rfl,related⟩
    | some b => exact afterFirst_same alike related b

theorem nextToken_same (related : R file src) (newlines : Bool) :
    Alike R (nextToken newlines file) (nextToken newlines src) := by
  unfold nextToken
  rw [alike.lineStart related]
  obtain ⟨⟨ending,fresh⟩,file,src,left,right,related⟩ :=
    (alike.scan (gap newlines) (.blank false (lineStart src)) related).split
  have related := alike.restart fresh related
  rw [left,right]
  dsimp only
  rw [alike.line related]
  cases ending with
  | unterminated line | newline | eof space => exact ⟨rfl,related⟩
  | token space => exact tokenHere_same alike related space
  | slash line space =>
    refine finish_same alike ?_ ..
    obtain ⟨p,file,src,left,right,related⟩ := (alike.scan punct .slash related).split
    rw [left,right]
    exact ⟨rfl,related⟩

end Lexer

end OnePass
