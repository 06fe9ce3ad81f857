import OnePass.Elf.LinkScript
import Mathlib.Data.List.Basic

/-! # The grammar of linker scripts

A script is read in one pass with a depth that counts open lists. It is accepted exactly if it belongs to the grammar,
in which lists of files are nested, and the inputs are then those that the grammar names. -/
namespace OnePass.Elf.LinkScript

open List Token

variable {toks out : List Token} {read : List Char} {text : String}

/-! ## The grammar -/

/-- A list of files, and the inputs that it names. -/
inductive Files : List String → List ScriptInput → Prop
  | nil : Files [] []
  | file {name : String} {rest : List String} {inputs : List ScriptInput}
      (plain : name ∉ ["(", ")", ",", "AS_NEEDED"]) (own : ¬['-', 'l'] <+: name.toList) (later : Files rest inputs) :
      Files (name :: rest) (.file name :: inputs)
  | library {name : String} {rest : List String} {inputs : List ScriptInput} (later : Files rest inputs) :
      Files (("-l" ++ name) :: rest) (.library name :: inputs)
  | comma {rest : List String} {inputs : List ScriptInput} (later : Files rest inputs) : Files ("," :: rest) inputs
  | asNeeded {inner rest : List String} {first second : List ScriptInput} (nested : Files inner first)
      (later : Files rest second) : Files ("AS_NEEDED" :: "(" :: inner ++ ")" :: rest) (first ++ second)

/-- A sequence of commands, and the inputs that it names. -/
inductive Script : List String → List ScriptInput → Prop
  | nil : Script [] []
  | inputs {name : String} {files rest : List String} {first second : List ScriptInput}
      (command : name = "GROUP" ∨ name = "INPUT") (list : Files files first) (later : Script rest second) :
      Script (name :: "(" :: files ++ ")" :: rest) (first ++ second)
  | readOver {name : String} {skipped rest : List String} {inputs : List ScriptInput}
      (command : name = "OUTPUT_FORMAT" ∨ name = "TARGET") (unclosed : ")" ∉ skipped) (later : Script rest inputs) :
      Script (name :: "(" :: skipped ++ ")" :: rest) inputs

/-! ## Tokens and their texts -/

namespace Token

def ofText (text : String) : Token :=
  if text = "(" then .opening else if text = ")" then .closing else if text = "," then .comma else .word text

def IsProper : Token → Prop
  | .word text => text ∉ ["(", ")", ","]
  | _ => True

theorem ofText_text (proper : tok.IsProper) : ofText tok.text = tok := by
  cases tok with
  | word written =>
    simp only [IsProper,mem_cons,not_or] at proper
    simp [text,ofText,proper]
  | _ => decide

end Token

theorem map_ofText (proper : ∀ tok ∈ toks, tok.IsProper) : (toks.map Token.text).map Token.ofText = toks := by
  rw [map_map]
  exact (map_congr_left fun tok member => ofText_text (proper tok member)).trans (map_id toks)

/-! ## Words that are read -/

/-- What was read of a script: words hold no punctuation. -/
structure Reading (s : ReadState × List Token) : Prop where
  proper : ∀ tok ∈ s.2, tok.IsProper
  inner : ∀ read, s.1 = .word read → ∀ c ∈ read, single? c = none

theorem wordOf_isProper (inner : ∀ c ∈ read, single? c = none) : (wordOf read).IsProper := by
  have apart c (punctuation : (single? c).isSome = true) : String.ofList read.reverse ≠ String.singleton c := by
    intro same
    have letters : read.reverse = [c] := by simpa using congrArg String.toList same
    have member : c ∈ read := by simpa using (by simp [letters] : c ∈ read.reverse)
    rw [inner c member] at punctuation
    cases punctuation
  simp only [wordOf,IsProper,mem_cons,not_mem_nil,or_false,not_or]
  exact ⟨apart '(' rfl,apart ')' rfl,apart ',' rfl⟩

section

variable (proper : ∀ tok ∈ out, tok.IsProper)

include proper

theorem Reading.word (inner : ∀ c ∈ read, single? c = none) : Reading (.word read,out) :=
  ⟨proper,by rintro _ ⟨⟩; exact inner⟩

theorem Reading.between {state : ReadState} (between : ∀ read, state ≠ .word read) : Reading (state,out) :=
  ⟨proper,fun read here => absurd here (between read)⟩

theorem gapStep_reading (c : Char) : Reading (gapStep out c) := by
  rw [gapStep]
  split
  · exact .between proper (by simp)
  · split
    next tok single =>
      refine .between (forall_mem_cons.mpr ⟨?_,proper⟩) (by simp)
      unfold single? at single
      split at single <;> cases single <;> trivial
    next inner =>
      split
      · exact .between proper (by simp)
      · exact .word proper (by simpa using inner)

theorem wordStep_reading (inner : ∀ c ∈ read, single? c = none) (c : Char) : Reading (wordStep out read c) := by
  rw [wordStep]
  split
  next => exact gapStep_reading (forall_mem_cons.mpr ⟨wordOf_isProper inner,proper⟩) c
  next more =>
    simp only [Bool.or_eq_true,not_or,Option.not_isSome_iff_eq_none] at more
    exact .word proper (forall_mem_cons.mpr ⟨more.2,inner⟩)

end

theorem readStep_reading (reading : Reading s) (c : Char) : Reading (readStep s c) := by
  obtain ⟨state,out⟩ := s
  cases state with
  | gap => exact gapStep_reading reading.proper c
  | slash =>
    rw [readStep]
    split
    · exact .between reading.proper (by simp)
    · exact wordStep_reading reading.proper (by simp; rfl) c
  | word read => exact wordStep_reading reading.proper (reading.inner read rfl) c
  | comment star =>
    rw [readStep]
    split <;> exact .between reading.proper (by simp)

theorem foldl_reading (text : List Char) (reading : Reading s) : Reading (text.foldl readStep s) := by
  induction text generalizing s with
  | nil => exact reading
  | cons c text ih => exact ih (readStep_reading reading c)

theorem tokens_isProper (text : List Char) : ∀ tok ∈ tokens text, tok.IsProper := by
  have reading := foldl_reading text (s := (.gap,[])) (.between (by simp) (by simp))
  unfold tokens
  split
  next out eq =>
    rw [eq] at reading
    simp only [mem_reverse]
    exact forall_mem_cons.mpr ⟨wordOf_isProper (by simp; rfl),reading.proper⟩
  next read out eq =>
    rw [eq] at reading
    simp only [mem_reverse]
    exact forall_mem_cons.mpr ⟨wordOf_isProper (reading.inner read rfl),reading.proper⟩
  next out eq =>
    rw [eq] at reading
    simpa using reading.proper

/-! ## What the grammar allows is accepted -/

theorem parseTokens_cons (state : ParseState) (tok : Token) (rest : List Token) :
    parseTokens state (tok :: rest) = match parseStep state tok with
      | .ok (later,input) => (parseTokens later rest).map (input.toList ++ ·)
      | .error fault => .error fault := by
  rw [parseTokens]
  cases parseStep state tok with
  | error fault => rfl
  | ok found =>
    cases parseTokens found.1 rest <;> rfl

theorem parseTokens_silent (step : parseStep state tok = .ok (later,none))
    (rest : List Token) : parseTokens state (tok :: rest) = parseTokens later rest := by
  rw [parseTokens_cons,step]
  dsimp only
  cases parseTokens later rest <;> rfl

theorem map_append_map (first second : List ScriptInput) (result : Except ScriptFault (List ScriptInput)) :
    (result.map (second ++ ·)).map (first ++ ·) = result.map ((first ++ second) ++ ·) := by
  cases result with
  | error fault => rfl
  | ok inputs => simp [Except.map]

theorem inputOf_library (name : String) : inputOf ("-l" ++ name) = .library name := by
  simp [inputOf]

theorem inputOf_file (own : ¬['-', 'l'] <+: name.toList) : inputOf name = .file name := by
  rw [inputOf]
  split
  next rest letters => exact absurd (by rw [letters]; exact ⟨rest,rfl⟩) own
  next => rfl

theorem parseTokens_word (other : text ≠ "AS_NEEDED") (depth : Nat) (rest : List Token) :
    parseTokens (.files depth) (.word text :: rest) = (parseTokens (.files depth) rest).map ([inputOf text] ++ ·) := by
  have step : parseStep (.files depth) (.word text) = .ok (.files depth,some (inputOf text)) := by
    unfold parseStep
    split <;> simp_all
  rw [parseTokens_cons,step]
  rfl

theorem parseTokens_files (list : Files files inputs) (depth : Nat)
    (rest : List Token) : parseTokens (.files (depth + 1)) (files.map .ofText ++ rest) =
      (parseTokens (.files (depth + 1)) rest).map (inputs ++ ·) := by
  induction list generalizing depth rest with
  | nil => cases h : parseTokens (.files (depth + 1)) rest <;> simp [h,Except.map]
  | @file name _ _ plain own _ ih =>
    simp only [mem_cons,not_mem_nil,or_false,not_or] at plain
    have word : ofText name = .word name := by simp [ofText,plain]
    rw [map_cons,cons_append,word,parseTokens_word plain.2.2.2,ih,map_append_map,inputOf_file own]
    rfl
  | @library name _ _ _ ih =>
    have plain s (short : ¬['-', 'l'] <+: s.toList) : "-l" ++ name ≠ s := by
      rintro rfl
      exact short (by simp)
    have word : ofText ("-l" ++ name) = .word ("-l" ++ name) := by
      simp [ofText,plain "(" (by decide),plain ")" (by decide),plain "," (by decide)]
    rw [map_cons,cons_append,word,parseTokens_word (plain _ (by decide)),ih,map_append_map,inputOf_library]
    rfl
  | comma _ ih => exact (parseTokens_silent rfl _).trans (ih depth rest)
  | @asNeeded inner _ first second _ _ nested later =>
    simp only [map_append,append_assoc]
    calc parseTokens (.files (depth + 1)) (.word "AS_NEEDED" :: .opening :: (inner.map .ofText ++ _))
      _ = parseTokens (.files (depth + 1 + 1)) (inner.map .ofText ++ (.closing :: (_ ++ rest))) := by
        rw [parseTokens_silent rfl,parseTokens_silent rfl]
        rfl
      _ = (parseTokens (.files (depth + 1)) (_ ++ rest)).map (first ++ ·) := by
        rw [nested,parseTokens_silent (by simp [parseStep]; rfl)]
      _ = _ := by simp only [later,map_append_map,append_assoc]

theorem parseTokens_skipped {skipped : List String} (unclosed : ")" ∉ skipped) (rest : List Token) :
    parseTokens .skipping (skipped.map .ofText ++ .closing :: rest) = parseTokens .top rest := by
  induction skipped with
  | nil => exact parseTokens_silent rfl rest
  | cons text skipped ih =>
    rw [mem_cons,not_or] at unclosed
    have other : ofText text ≠ .closing := by
      rw [ofText]
      split
      · simp
      · rw [if_neg (Ne.symm unclosed.1)]
        split <;> simp
    have step : parseStep .skipping (ofText text) = .ok (.skipping,none) := by
      unfold parseStep
      split <;> simp_all
    rw [map_cons,cons_append,parseTokens_silent step,ih unclosed.2]

theorem parseTokens_script (script : Script texts inputs) : parseTokens .top (texts.map .ofText) = .ok inputs := by
  induction script with
  | nil => rfl
  | @inputs name files rest first second command list _ ih =>
    have opened : parseTokens .top ((name :: "(" :: files ++ ")" :: rest).map .ofText) =
        parseTokens (.files 1) (files.map .ofText ++ .closing :: rest.map .ofText) := by
      rw [map_append]
      rcases command with rfl | rfl <;> exact (parseTokens_silent rfl _).trans (parseTokens_silent rfl _)
    rw [opened,parseTokens_files list,parseTokens_silent rfl]
    exact congrArg (Except.map (first ++ ·)) ih
  | @readOver name skipped rest inputs command unclosed _ ih =>
    have opened : parseTokens .top ((name :: "(" :: skipped ++ ")" :: rest).map .ofText) =
        parseTokens .skipping (skipped.map .ofText ++ .closing :: rest.map .ofText) := by
      rw [map_append]
      rcases command with rfl | rfl <;> exact (parseTokens_silent rfl _).trans (parseTokens_silent rfl _)
    rw [opened,parseTokens_skipped unclosed,ih]

/-! ## What is accepted belongs to the grammar -/

theorem parseTokens_step
    (run : parseTokens state (tok :: rest) = .ok inputs) : ∃ later input second,
      parseStep state tok = .ok (later,input) ∧ parseTokens later rest = .ok second ∧ inputs = input.toList ++ second := by
  rw [parseTokens_cons] at run
  cases step : parseStep state tok with
  | error fault =>
    rw [step] at run
    cases run
  | ok found =>
    rw [step] at run
    dsimp only at run
    cases later : parseTokens found.1 rest with
    | error fault =>
      rw [later] at run
      cases run
    | ok second =>
      rw [later] at run
      cases run
      exact ⟨found.1,found.2,second,rfl,later,rfl⟩

def behind (depth : Nat) : ParseState := if depth = 0 then .top else .files depth

theorem parseStep_files (proper : tok.IsProper) (step : parseStep (.files (depth + 1)) tok = .ok (later,input)) :
    (tok = .closing ∧ later = behind depth ∧ input = none) ∨ (tok = .comma ∧ later = .files (depth + 1) ∧ input = none) ∨
      (tok = .word "AS_NEEDED" ∧ later = .asNeeded (depth + 1) ∧ input = none) ∨
      ∃ text, tok = .word text ∧ text ∉ ["(", ")", ",", "AS_NEEDED"] ∧ later = .files (depth + 1) ∧
        input = some (inputOf text) := by
  cases tok with
  | opening => cases step
  | closing =>
    obtain ⟨rfl,rfl⟩ := step
    refine .inl ⟨rfl,?_,rfl⟩
    simp [behind]
  | comma =>
    cases step
    exact .inr (.inl ⟨rfl,rfl,rfl⟩)
  | word text =>
    by_cases needed : text = "AS_NEEDED"
    · subst needed
      cases step
      exact .inr (.inr (.inl ⟨rfl,rfl,rfl⟩))
    · have named : parseStep (.files (depth + 1)) (.word text) = .ok (.files (depth + 1),some (inputOf text)) := by
        unfold parseStep
        split <;> simp_all
      rw [named] at step
      cases step
      refine .inr (.inr (.inr ⟨text,rfl,?_,rfl,rfl⟩))
      simpa [IsProper,needed] using proper

theorem Files.input (plain : text ∉ ["(", ")", ",", "AS_NEEDED"]) (later : Files rest inputs) :
    Files (text :: rest) (inputOf text :: inputs) := by
  by_cases own : ['-', 'l'] <+: text.toList
  · obtain ⟨name,letters⟩ := own
    have parts : text = "-l" ++ String.ofList name := by
      rw [← String.toList_inj,← letters]
      simp
    rw [parts,inputOf_library]
    exact .library later
  · rw [inputOf_file own]
    exact .file plain own later

theorem opened_of_asNeeded (run : parseTokens (.asNeeded depth) toks = .ok inputs) :
    ∃ rest, toks = .opening :: rest ∧ parseTokens (.files (depth + 1)) rest = .ok inputs := by
  cases toks with
  | nil => cases run
  | cons tok rest =>
    obtain ⟨later,input,second,step,next,rfl⟩ := parseTokens_step run
    cases tok with
    | opening =>
      cases step
      exact ⟨rest,rfl,next⟩
    | _ => cases step

/-- A list of files that is closed belongs to the grammar. The induction is on the number of tokens: an inner list is
closed first, and what follows it is the rest of the outer one. -/
theorem files_of_parseTokens (size : Nat) (bound : toks.length < size) (proper : ∀ tok ∈ toks, tok.IsProper)
    (run : parseTokens (.files (depth + 1)) toks = .ok inputs) : ∃ inner rest first second,
      toks = inner ++ .closing :: rest ∧ Files (inner.map Token.text) first ∧
      parseTokens (behind depth) rest = .ok second ∧ inputs = first ++ second := by
  induction size generalizing toks depth inputs with
  | zero => omega
  | succ size ih =>
    cases toks with
    | nil => cases run
    | cons tok toks =>
      rw [length_cons,Nat.add_lt_add_iff_right] at bound
      obtain ⟨first,others⟩ := forall_mem_cons.mp proper
      obtain ⟨later,input,second,step,next,rfl⟩ := parseTokens_step run
      rcases parseStep_files first step with ⟨rfl,rfl,rfl⟩ | ⟨rfl,rfl,rfl⟩ | ⟨rfl,rfl,rfl⟩ | ⟨text,rfl,plain,rfl,rfl⟩
      · exact ⟨[],toks,[],second,rfl,.nil,next,rfl⟩
      · obtain ⟨inner,rest,a,b,rfl,list,after,rfl⟩ := ih bound others next
        exact ⟨.comma :: inner,rest,a,b,rfl,list.comma,after,rfl⟩
      · obtain ⟨toks,rfl,opened⟩ := opened_of_asNeeded next
        obtain ⟨_,others'⟩ := forall_mem_cons.mp others
        rw [length_cons] at bound
        obtain ⟨nested,toks',a,_,rfl,list,closed,rfl⟩ := ih (by omega) others' opened
        simp only [length_append,length_cons] at bound
        obtain ⟨inner,rest,b,c,rfl,list',after,rfl⟩ := ih (by omega) (fun tok member => others' tok (by simp [member])) closed
        refine ⟨.word "AS_NEEDED" :: .opening :: nested ++ .closing :: inner,rest,a ++ b,c,by simp,?_,after,by simp⟩
        rw [map_append]
        exact list.asNeeded list'
      · obtain ⟨inner,rest,a,b,rfl,list,after,rfl⟩ := ih bound others next
        exact ⟨.word text :: inner,rest,inputOf text :: a,b,rfl,list.input plain,after,rfl⟩

theorem skipped_of_parseTokens (proper : ∀ tok ∈ toks, tok.IsProper)
    (run : parseTokens .skipping toks = .ok inputs) : ∃ skipped rest, toks = skipped ++ .closing :: rest ∧
      ")" ∉ skipped.map Token.text ∧ parseTokens .top rest = .ok inputs := by
  induction toks generalizing inputs with
  | nil => cases run
  | cons tok toks ih =>
    obtain ⟨first,others⟩ := forall_mem_cons.mp proper
    by_cases closing : tok = .closing
    · subst closing
      exact ⟨[],toks,rfl,by simp,(parseTokens_silent rfl toks).symm.trans run⟩
    · have silent : parseStep .skipping tok = .ok (.skipping,none) := by
        unfold parseStep
        split <;> simp_all
      rw [parseTokens_silent silent] at run
      obtain ⟨skipped,rest,rfl,unclosed,after⟩ := ih others run
      refine ⟨tok :: skipped,rest,rfl,?_,after⟩
      rw [map_cons,mem_cons,not_or]
      refine ⟨fun same => closing ?_,unclosed⟩
      rw [← ofText_text first,← same]
      rfl

theorem opened_of_parseTokens
    (run : parseTokens .top (name :: toks) = .ok inputs) : ∃ rest, toks = .opening :: rest ∧
      (((name.text = "GROUP" ∨ name.text = "INPUT") ∧ parseTokens (.files 1) rest = .ok inputs) ∨
        ((name.text = "OUTPUT_FORMAT" ∨ name.text = "TARGET") ∧ parseTokens .skipping rest = .ok inputs)) := by
  rw [parseTokens_silent rfl] at run
  cases toks with
  | nil => cases run
  | cons tok rest =>
    obtain ⟨later,input,second,step,next,rfl⟩ := parseTokens_step run
    cases tok with
    | opening =>
      refine ⟨rest,rfl,?_⟩
      rw [parseStep] at step
      unfold openCommand at step
      split at step <;> cases step
      · exact .inl ⟨.inl rfl,next⟩
      · exact .inl ⟨.inr rfl,next⟩
      · exact .inr ⟨.inl rfl,next⟩
      · exact .inr ⟨.inr rfl,next⟩
    | _ => cases step

theorem script_of_parseTokens (size : Nat) (bound : toks.length < size)
    (proper : ∀ tok ∈ toks, tok.IsProper) (run : parseTokens .top toks = .ok inputs) :
    Script (toks.map Token.text) inputs := by
  induction size generalizing toks inputs with
  | zero => omega
  | succ size ih =>
    cases toks with
    | nil =>
      cases run
      exact .nil
    | cons name toks =>
      obtain ⟨toks,rfl,opened⟩ := opened_of_parseTokens run
      have others : ∀ tok ∈ toks, tok.IsProper := fun tok member => proper tok (by simp [member])
      rcases opened with ⟨command,inside⟩ | ⟨command,skipping⟩
      · obtain ⟨files,rest,first,second,rfl,list,after,rfl⟩ := files_of_parseTokens _ (Nat.lt_succ_self _) others inside
        simp only [length_append,length_cons] at bound
        have later := ih (by omega) (fun tok member => others tok (by simp [member])) after
        rw [map_cons,map_cons,map_append]
        exact .inputs command list later
      · obtain ⟨skipped,rest,rfl,unclosed,after⟩ := skipped_of_parseTokens others skipping
        simp only [length_append,length_cons] at bound
        have later := ih (by omega) (fun tok member => others tok (by simp [member])) after
        rw [map_cons,map_cons,map_append]
        exact .readOver command unclosed later

/-- A script is accepted exactly if its tokens are a sequence of commands, and the inputs are those that they name. -/
theorem parse_eq_ok_iff (data : Bytes) (inputs : List ScriptInput) : parse data = .ok inputs ↔
    ∃ text, Utf8.decode? data = some text ∧ Script ((tokens text.toList).map Token.text) inputs := by
  unfold parse
  cases Utf8.decode? data with
  | none => simp
  | some text =>
    have proper := tokens_isProper text.toList
    have exactly : parseTokens .top (tokens text.toList) = .ok inputs ↔
        Script ((tokens text.toList).map Token.text) inputs := by
      refine ⟨script_of_parseTokens _ (Nat.lt_succ_self _) proper,fun script => ?_⟩
      have run := parseTokens_script script
      rwa [map_ofText proper] at run
    simp only [Option.some.injEq,exists_eq_left',← exactly]
    cases parseTokens .top (tokens text.toList) <;> simp

end OnePass.Elf.LinkScript
