import OnePass.Proofs.SymbolTable

/-! # Looking symbols up

The hash table beside a symbol table holds every symbol that is not local, in the chain of its bucket. It
is extended with every new symbol and built anew when the chains get long; both keep it complete. -/
namespace OnePass.Elf.Arena

open Section Bytes UInt32 List

variable {arena after : Arena} {table strings hash : SectionId} {count : Nat}

variable {sec : Section} {name : String}

/-- The hash table covers the first `count` symbols. -/
structure Hashed (arena : Arena) (table hash : SectionId) (count : Nat) : Prop where
  words : (arena.get hash).Backed
  hashed : (arena.get hash).hashed ≤ count
  buckets : 0 < (arena.get hash).word 0 ∧ (arena.get hash).word 0 ≤ count
  extent : (arena.get hash).size = (2 + (arena.get hash).word 0 + count) * 4
  chained : Chained (fun k => (arena.get hash).word (k * 4)) (arena.bucket table ((arena.get hash).word 0))
    ((arena.get hash).word 0) count

theorem bucket_congr (own : (after.symbol table i).isLocal = (arena.symbol table i).isLocal)
    (name : after.symbolName table i = arena.symbolName table i) :
    after.bucket table buckets i = arena.bucket table buckets i := by
  rw [bucket,bucket,own,name]

theorem Hashed.congr (hashed : Hashed arena table hash count) (same : after.get hash = arena.get hash)
    (own : ∀ i < count, (after.symbol table i).isLocal = (arena.symbol table i).isLocal)
    (name : ∀ i < count, after.symbolName table i = arena.symbolName table i) : Hashed after table hash count := by
  obtain ⟨words,fewer,buckets,extent,chained⟩ := hashed
  rw [← same] at words fewer buckets extent chained
  exact ⟨words,fewer,buckets,extent,chained.congr (fun i inside => bucket_congr (own i inside) (name i inside))
    (fun _ _ => rfl) fun _ _ => rfl⟩

/-! ## Building anew -/

/-- The words of a hash table with `buckets` buckets that covers the symbols below `n`. -/
def Words (arena : Arena) (table : SectionId) (buckets n : Nat) (words : Array UInt32) : Prop :=
  Chained (fun k => (words[k]?.getD 0).toNat) (arena.bucket table buckets) buckets n

theorem words_start (arena : Arena) (table : SectionId) (buckets count : Nat) :
    Words arena table buckets 1 ((Array.replicate (2 + buckets + count) (0 : UInt32)).setIfInBounds 0
      (ofNat buckets) |>.setIfInBounds 1 (ofNat count)) := by
  have blank (k : Nat) (behind : 2 ≤ k) : (((Array.replicate (2 + buckets + count) 0).setIfInBounds 0
      (ofNat buckets) |>.setIfInBounds 1 (ofNat count))[k]?.getD 0).toNat = 0 := by
    rw [Array.getElem?_setIfInBounds_ne (by omega),Array.getElem?_setIfInBounds_ne (by omega),
      Array.getElem?_replicate]
    split <;> rfl
  have first b : latest (arena.bucket table buckets · = some b) 1 = 0 := by
    rw [latest]
    split <;> rfl
  refine ⟨fun b _ => ?_,fun i below b _ => ?_⟩
  · rw [first b]
    exact blank _ (by omega)
  · obtain rfl : i = 0 := by omega
    exact blank _ (by omega)

theorem hashWords_size (buckets i : Nat) (words : Array UInt32) :
    (arena.hashWords table buckets words i).size = words.size := by
  simp [hashWords]

theorem foldl_hashWords_counts (front : k < 2) (entered : List Nat) (words : Array UInt32) :
    (entered.foldl (arena.hashWords table buckets) words)[k]? = words[k]? := by
  induction entered generalizing words with
  | nil => rfl
  | cons i rest ih =>
    rw [foldl_cons,ih,hashWords,Array.getElem?_setIfInBounds_ne (by omega),
      Array.getElem?_setIfInBounds_ne (by omega)]

theorem foldl_hashWords_size (entered : List Nat) (words : Array UInt32) :
    (entered.foldl (arena.hashWords table buckets) words).size = words.size := by
  induction entered generalizing words with
  | nil => rfl
  | cons i rest ih => rw [foldl_cons,ih,hashWords_size]

theorem words_step (state : Words arena table buckets n words)
    (positive : 0 < buckets) (size : words.size = 2 + buckets + count) (below : n < count) (small : count < 2 ^ 32) :
    Words arena table buckets (n + 1)
      (if !(arena.symbol table n).isLocal then arena.hashWords table buckets words n else words) := by
  by_cases own : (arena.symbol table n).isLocal = true
  · rw [if_neg (by simp [own])]
    exact state.pass (by simp [bucket,own]) (fun _ _ => rfl) (fun _ _ => rfl)
  · have inside := Nat.mod_lt (hashName (ofString (arena.symbolName table n))).toNat positive
    rw [if_pos (by simp [own])]
    refine Chained.enter state
      (by simp [bucket,own]) inside ?_ ?_ ?_ ?_
    · simp only [hashWords]
      rw [Array.getElem?_setIfInBounds_self_of_lt (by simp; omega),Option.getD_some,toNat_ofNat',
        Nat.mod_eq_of_lt (by omega)]
    · intro c _ different
      simp only [hashWords]
      rw [Array.getElem?_setIfInBounds_ne (by omega),Array.getElem?_setIfInBounds_ne (by omega)]
    · simp only [hashWords]
      rw [Array.getElem?_setIfInBounds_ne (by omega),Array.getElem?_setIfInBounds_self_of_lt (by omega),Option.getD_some]
    · intro i old
      simp only [hashWords]
      rw [Array.getElem?_setIfInBounds_ne (by omega),Array.getElem?_setIfInBounds_ne (by omega)]

theorem words_fold (arena : Arena) (table : SectionId) (positive : 0 < buckets)
    (small : count < 2 ^ 32) (items n : Nat) (words : Array UInt32) (size : words.size = 2 + buckets + count) (below : n + items ≤ count) (state : Words arena table buckets n words) :
    Words arena table buckets (n + items) (((range' n items).filter fun i => !(arena.symbol table i).isLocal).foldl
      (arena.hashWords table buckets) words) := by
  induction items generalizing n words with
  | zero => exact state
  | succ items ih =>
    have next := words_step state positive size (by omega) small
    rw [range'_succ,filter_cons]
    by_cases own : (arena.symbol table n).isLocal = true
    · rw [if_neg (by simp [own])] at next ⊢
      have rest := ih (n + 1) words size (by omega) next
      rwa [add_right_comm] at rest
    · rw [if_pos (by simp [own])] at next ⊢
      have rest := ih (n + 1) _ (by rw [hashWords_size,size]) (by omega) next
      rwa [add_right_comm] at rest

theorem word_flatMap (kind : sec.isNobits = false) (words : Array UInt32) (hashed k : Nat) (inside : k < words.size) :
    ({ sec.clear.append (words.toList.flatMap ofUInt32) with hashed } : Section).word (k * 4) =
      (words[k]?.getD 0).toNat := by
  have backed : sec.clear.Backed := ⟨kind,Nat.zero_le _⟩
  have empty : sec.clear.contents = #[] := by simp [contents,clear]
  have contents : (sec.clear.append (words.toList.flatMap ofUInt32)).contents =
      (words.toList.flatMap ofUInt32).toArray := by
    rw [contents_append backed,empty,Array.empty_append]
  have whole : BytesAt (sec.clear.append (words.toList.flatMap ofUInt32)).store 0
      (words.toList.flatMap ofUInt32) := by
    apply store_of_contents
    rw [contents]
    intro i _
    rw [zero_add,getElem?_toArray]
  have found : words.toList[k]? = some words[k] := by
    rw [Array.getElem?_toList,Array.getElem?_eq_getElem inside]
  have field := (whole.item (fun _ _ => length_ofUInt32 _) found).readLE_eq
  rw [toNatLE_ofUInt32,zero_add,mul_comm] at field
  rwa [Array.getElem?_eq_getElem inside]

structure Beside (arena : Arena) (table strings hash : SectionId) : Prop where
  link : (arena.get table).link = some strings
  chains : (arena.get table).hash = some hash
  bound : hash < arena.sections.size
  hash_ne : hash ≠ table
  hash_apart : hash ≠ strings

theorem Beside.congr (beside : Beside arena table strings hash) (size : arena.sections.size ≤ after.sections.size)
    (same : after.get table = arena.get table) : Beside after table strings hash :=
  ⟨by rw [same]; exact beside.link,by rw [same]; exact beside.chains,lt_of_lt_of_le beside.bound size,
    beside.hash_ne,beside.hash_apart⟩

theorem Beside.symbols (beside : Beside arena table strings hash) (framed : Framed [hash] arena after) :
    (∀ i, after.symbol table i = arena.symbol table i) ∧ (∀ i, after.symbolName table i = arena.symbolName table i) ∧
      after.symbolCount table = arena.symbolCount table := by
  have same : after.get table = arena.get table := framed.others _ (by simpa using Ne.symm beside.hash_ne)
  have texts : after.get strings = arena.get strings := framed.others _ (by simpa using Ne.symm beside.hash_apart)
  exact ⟨symbol_congr same,symbolName_congr same beside.link texts,symbolCount_congr same⟩

theorem Beside.framed (beside : Beside arena table strings hash) (framed : Framed [hash] arena after) :
    Beside after table strings hash :=
  beside.congr (le_of_eq framed.size.symm) (framed.others table (by simpa using Ne.symm beside.hash_ne))

theorem rebuildHash_words (chains : (arena.get table).hash = some hash) (positive : 0 < buckets)
    (few : buckets ≤ arena.symbolCount table) (small : arena.symbolCount table < 2 ^ 32) :
    ∃ words hashed,
      arena.rebuildHash table buckets =
        arena.update hash (fun sec => { sec.clear.append (words.toList.flatMap ofUInt32) with hashed }) ∧
      Words arena table buckets (arena.symbolCount table) words ∧
      words.size = 2 + buckets + arena.symbolCount table ∧ words[0]? = some (ofNat buckets) ∧
      hashed ≤ arena.symbolCount table := by
  have chained := words_fold arena table positive small (arena.symbolCount table - 1) 1 _ (by simp) (by omega)
    (words_start arena table buckets (arena.symbolCount table))
  rw [Nat.add_sub_cancel' (by omega)] at chained
  refine ⟨_,_,by simp only [rebuildHash,chains]; rfl,chained,?_,?_,?_⟩
  · rw [foldl_hashWords_size]
    simp
  · rw [foldl_hashWords_counts (by omega),Array.getElem?_setIfInBounds_ne (by omega),
      Array.getElem?_setIfInBounds_self_of_lt (by rw [Array.size_replicate]; omega)]
  · exact Nat.le_trans (length_filter_le _ _) (by simp)

theorem rebuildHash_hashed (beside : Beside arena table strings hash)
    (kind : (arena.get hash).isNobits = false) (positive : 0 < buckets)
    (few : buckets ≤ arena.symbolCount table) (small : arena.symbolCount table < 2 ^ 32) :
    let after := arena.rebuildHash table buckets
    Hashed after table hash (arena.symbolCount table) ∧ Framed [hash] arena after := by
  intro after
  obtain ⟨words,hashed,result,chained,size,first,fewer⟩ := rebuildHash_words beside.chains positive few small
  replace result : after = _ := result
  have framed : Framed [hash] arena after := by
    rw [result]
    refine .update arena (by simp) ?_
    obtain ⟨store,eq⟩ := append_eq (arena.get hash).clear (words.toList.flatMap ofUInt32)
    rw [eq]
    exact ⟨_,_,_,rfl⟩
  obtain ⟨symbols,names,_⟩ := beside.symbols framed
  have backed := append_backed (⟨kind,Nat.zero_le _⟩ : (arena.get hash).clear.Backed)
    (words.toList.flatMap ofUInt32)
  have same : after.get hash = { (arena.get hash).clear.append (words.toList.flatMap ofUInt32) with hashed } := by
    rw [result,get_update_same beside.bound]
  have word k (inside : k < words.size) : (after.get hash).word (k * 4) = (words[k]?.getD 0).toNat := by
    rw [same]
    exact word_flatMap kind words hashed k inside
  have head : (after.get hash).word 0 = buckets := by
    have zero := word 0 (by omega)
    rwa [first,Option.getD_some,toNat_ofNat',Nat.mod_eq_of_lt (by omega)] at zero
  refine ⟨⟨?_,?_,?_,?_,?_⟩,framed⟩
  · rw [same]
    exact ⟨backed.kind,backed.stored⟩
  · rwa [same]
  · rw [head]
    exact ⟨positive,few⟩
  · have length := length_flatMap_width ofUInt32 4 words.toList fun _ _ => length_ofUInt32 _
    rw [head,same]
    simp only [size_append,length,Array.length_toList]
    rw [show (arena.get hash).clear.size = 0 from rfl]
    omega
  · rw [head]
    exact chained.congr (fun i _ => bucket_congr (congrArg Symbol.isLocal (symbols i)) (names i))
      (fun b below => word (2 + b) (by omega)) fun i below => word (2 + buckets + i) (by omega)

/-! ## Entering a symbol -/

def chainRoom (sec : Section) : Section :=
  let wide := sec.resize (sec.size + 4)
  wide.setWord 4 (wide.word 4 + 1)

theorem chainRoom_backed (backed : sec.Backed) : (chainRoom sec).Backed :=
  patch_backed (resize_backed backed.kind _) _ _

theorem chainRoom_size (sec : Section) : (chainRoom sec).size = sec.size + 4 := rfl

theorem chainRoom_rewritten (sec : Section) : sec.Rewritten (chainRoom sec) :=
  (Section.Rewritten.resize sec _).trans (.patch _ _ _)

theorem chainRoom_hashed (sec : Section) : (chainRoom sec).hashed = sec.hashed := by
  simp only [chainRoom,setWord,patch,resize,reserveTo]
  split <;> rfl

theorem chainRoom_word (other : k ≠ 1) : (chainRoom sec).word (k * 4) = sec.word (k * 4) := by
  rw [chainRoom,word_setWord_other (by omega),word_resized]

theorem enterHash_local : arena.enterHash table hash i name true =
      arena.update hash fun _ => (chainRoom (arena.get hash)).setWord ((2 + (arena.get hash).word 0 + i) * 4) 0 := by
  simp only [enterHash,word_resized,chainRoom,if_true]

def chainHead (sec : Section) (b i : Nat) : Section :=
  { ((chainRoom sec).setWord ((2 + sec.word 0 + i) * 4) ((chainRoom sec).word ((2 + b) * 4))).setWord
      ((2 + b) * 4) i with hashed := sec.hashed + 1 }

theorem enterHash_shared : arena.enterHash table hash i name false =
      if (arena.get hash).hashed + 1 > 2 * (arena.get hash).word 0
      then (arena.update hash fun _ => chainHead (arena.get hash)
        ((hashName (ofString name)).toNat % (arena.get hash).word 0) i).rebuildHash table
          (2 * (arena.get hash).word 0)
      else arena.update hash fun _ => chainHead (arena.get hash)
        ((hashName (ofString name)).toNat % (arena.get hash).word 0) i := by
  have hashed (sec : Section) a b c d : ((sec.setWord a b).setWord c d).hashed = sec.hashed := by
    simp only [setWord,patch]
  have room := chainRoom_hashed (arena.get hash)
  simp only [chainRoom,word_resized] at room
  simp only [enterHash,word_resized,chainHead,chainRoom,hashed,room,Bool.false_eq_true,if_false]

theorem chainHead_size (sec : Section) (b i : Nat) : (chainHead sec b i).size = sec.size + 4 := by
  simp only [chainHead,setWord,patch,chainRoom_size]

theorem chainHead_store (sec : Section) (b i : Nat) : (chainHead sec b i).store.size = (chainRoom sec).store.size := by
  simp only [chainHead,store_size_setWord]

theorem chainHead_backed (backed : sec.Backed) (b i : Nat) : (chainHead sec b i).Backed := by
  have room := chainRoom_backed backed
  refine ⟨?_,?_⟩
  · simp only [chainHead,setWord,patch]
    exact room.kind
  · rw [chainHead_store]
    exact room.stored

theorem chainHead_rewritten (sec : Section) (b i : Nat) : sec.Rewritten (chainHead sec b i) := by
  refine (chainRoom_rewritten sec).trans ⟨(chainHead sec b i).store,sec.size + 4,sec.hashed + 1,?_⟩
  simp only [chainHead,setWord,patch,chainRoom_size]

theorem word_hashed (sec : Section) (hashed offset : Nat) :
    ({ sec with hashed } : Section).word offset = sec.word offset := rfl

theorem chainHead_word (head : k ≠ 2 + b) (link : k ≠ 2 + sec.word 0 + i) :
    (chainHead sec b i).word (k * 4) = (chainRoom sec).word (k * 4) := by
  rw [chainHead,word_hashed,word_setWord_other (by omega),word_setWord_other (by omega)]

theorem chainHead_head (room : (2 + b) * 4 + 4 ≤ (chainRoom sec).store.size)
    (small : i < 2 ^ 32) : (chainHead sec b i).word ((2 + b) * 4) = i := by
  rw [chainHead,word_hashed]
  exact word_setWord_same (by rwa [store_size_setWord]) small

theorem chainHead_link (apart : b < sec.word 0) (room : (2 + sec.word 0 + i) * 4 + 4 ≤ (chainRoom sec).store.size)
    (small : (chainRoom sec).word ((2 + b) * 4) < 2 ^ 32) :
    (chainHead sec b i).word ((2 + sec.word 0 + i) * 4) = (chainRoom sec).word ((2 + b) * 4) := by
  rw [chainHead,word_hashed,word_setWord_other (by omega)]
  exact word_setWord_same room small

theorem Beside.replace (beside : Beside arena table strings hash)
    (rewritten : (arena.get hash).Rewritten sec) (words : sec.Backed) (hashed : sec.hashed ≤ count)
    (buckets : 0 < sec.word 0 ∧ sec.word 0 ≤ count) (extent : sec.size = (2 + sec.word 0 + count) * 4)
    (chained : Chained (fun k => sec.word (k * 4)) (arena.bucket table (sec.word 0)) (sec.word 0) count) :
    let after := arena.update hash fun _ => sec
    Hashed after table hash count ∧ Framed [hash] arena after := by
  intro after
  have framed : Framed [hash] arena after := .update arena (by simp) rewritten
  obtain ⟨symbols,names,_⟩ := beside.symbols framed
  have same : after.get hash = sec := get_update_same beside.bound
  refine ⟨⟨?_,?_,?_,?_,?_⟩,framed⟩ <;> rw [same]
  · exact words
  · exact hashed
  · exact buckets
  · exact extent
  · exact chained.congr (fun i _ => bucket_congr (congrArg Symbol.isLocal (symbols i)) (names i))
      (fun _ _ => rfl) fun _ _ => rfl

theorem Hashed.room (hashed : Hashed arena table hash count) :
    (2 + (arena.get hash).word 0 + count) * 4 + 4 ≤ (chainRoom (arena.get hash)).store.size := by
  have stored := (chainRoom_backed hashed.words).stored
  rwa [chainRoom_size,hashed.extent] at stored

/-- A local symbol gets its chain word, also when it is the first one. -/
theorem enterHash_hashed_local (beside : Beside arena table strings hash) (words : (arena.get hash).Backed)
    (fewer : (arena.get hash).hashed ≤ count)
    (buckets : 0 < (arena.get hash).word 0 ∧ (arena.get hash).word 0 ≤ count + 1)
    (extent : (arena.get hash).size = (2 + (arena.get hash).word 0 + count) * 4)
    (chained : Chained (fun k => (arena.get hash).word (k * 4)) (arena.bucket table ((arena.get hash).word 0))
      ((arena.get hash).word 0) count)
    (own : (arena.symbol table count).isLocal = true) (name : String) :
    let after := arena.enterHash table hash count name true
    Hashed after table hash (count + 1) ∧ Framed [hash] arena after := by
  rw [enterHash_local]
  have word {k : Nat} (other : k ≠ 1) (below : k < 2 + (arena.get hash).word 0 + count) :
      ((chainRoom (arena.get hash)).setWord ((2 + (arena.get hash).word 0 + count) * 4) 0).word (k * 4) =
        (arena.get hash).word (k * 4) := by
    rw [word_setWord_other (by omega),chainRoom_word other]
  have zero : ((chainRoom (arena.get hash)).setWord ((2 + (arena.get hash).word 0 + count) * 4) 0).word 0 =
      (arena.get hash).word 0 := by
    simpa using word (k := 0) (by decide) (by omega)
  apply beside.replace
  · exact (chainRoom_rewritten _).trans (.patch _ _ _)
  · exact patch_backed (chainRoom_backed words) _ _
  · rw [← chainRoom_hashed (arena.get hash)] at fewer
    simp only [setWord,patch]
    omega
  · rwa [zero]
  · rw [size_setWord,chainRoom_size]
    omega
  · rw [zero]
    refine chained.pass (by simp [bucket,own]) (fun b below => ?_) (fun i below => ?_)
    · exact word (by omega) (by omega)
    · exact word (by omega) (by omega)

theorem chainHead_hashed (beside : Beside arena table strings hash) (hashed : Hashed arena table hash count)
    (shared : (arena.symbol table count).isLocal = false) (small : count < 2 ^ 32) :
    let b := (hashName (ofString (arena.symbolName table count))).toNat % (arena.get hash).word 0
    let after := arena.update hash fun _ => chainHead (arena.get hash) b count
    Hashed after table hash (count + 1) ∧ Framed [hash] arena after := by
  have extent := hashed.extent
  have positive := hashed.buckets
  have room := hashed.room
  have inside := Nat.mod_lt (hashName (ofString (arena.symbolName table count))).toNat positive.1
  generalize which : (hashName (ofString (arena.symbolName table count))).toNat % (arena.get hash).word 0 = b at inside
  have word {k : Nat} (other : k ≠ 1) (head : k ≠ 2 + b) (below : k < 2 + (arena.get hash).word 0 + count) :
      (chainHead (arena.get hash) b count).word (k * 4) = (arena.get hash).word (k * 4) := by
    rw [chainHead_word head (by omega),chainRoom_word other]
  have zero : (chainHead (arena.get hash) b count).word 0 = (arena.get hash).word 0 := by
    simpa using word (k := 0) (by decide) (by omega) (by omega)
  have old : (chainRoom (arena.get hash)).word ((2 + b) * 4) = (arena.get hash).word ((2 + b) * 4) :=
    chainRoom_word (by omega)
  have oldSmall : (arena.get hash).word ((2 + b) * 4) < 2 ^ 32 := by
    have head : (arena.get hash).word ((2 + b) * 4) = _ := hashed.chained.heads b inside
    rw [head]
    exact Nat.lt_of_le_of_lt latest_le small
  apply beside.replace
  · exact chainHead_rewritten _ _ _
  · exact chainHead_backed hashed.words _ _
  · have fewer := hashed.hashed
    simp only [chainHead]
    omega
  · omega
  · rw [chainHead_size]
    omega
  · rw [zero]
    refine hashed.chained.enter (by simp [bucket,shared,which]) inside ?_ (fun c below other => ?_) ?_
      (fun i below => ?_)
    · exact chainHead_head (by omega) small
    · exact word (by omega) (by omega) (by omega)
    · rw [chainHead_link inside room (by omega),old]
    · exact word (by omega) (by omega) (by omega)

/-- The table covers one more symbol once it has been entered. -/
theorem enterHash_hashed (beside : Beside arena table strings hash) (hashed : Hashed arena table hash count)
    (total : arena.symbolCount table = count + 1) (small : count + 1 < 2 ^ 32) :
    let after := arena.enterHash table hash count (arena.symbolName table count) (arena.symbol table count).isLocal
    Hashed after table hash (count + 1) ∧ Framed [hash] arena after := by
  have extent := hashed.extent
  have buckets := hashed.buckets
  have fewer := hashed.hashed
  cases own : (arena.symbol table count).isLocal with
  | true => exact enterHash_hashed_local beside hashed.words fewer (by omega) extent hashed.chained own _
  | false =>
    obtain ⟨entered,framed⟩ := chainHead_hashed beside hashed own (by omega)
    rw [enterHash_shared]
    split
    next long =>
      obtain ⟨_,_,count'⟩ := beside.symbols framed
      rw [total] at count'
      have rebuilt := rebuildHash_hashed (beside.framed framed) entered.words.kind
        (by omega : 0 < 2 * (arena.get hash).word 0) (by omega) (by omega)
      rw [count'] at rebuilt
      exact ⟨rebuilt.1,framed.trans rebuilt.2⟩
    next => exact ⟨entered,framed⟩

/-! ## Adding symbols -/

structure Tabled (arena : Arena) (table strings hash : SectionId) : Prop where
  named : Named arena table strings
  beside : Beside arena table strings hash
  hashed : Hashed arena table hash (arena.symbolCount table)
  null : arena.symbol table 0 = {}

namespace Tabled

section

variable (tabled : Tabled arena table strings hash)

include tabled

theorem positive : 0 < arena.symbolCount table := by
  have := tabled.hashed.buckets
  omega

theorem congr (size : arena.sections.size ≤ after.sections.size)
    (same : after.get table = arena.get table) (texts : after.get strings = arena.get strings)
    (words : after.get hash = arena.get hash) : Tabled after table strings hash := by
  have symbols := symbol_congr same
  have names := symbolName_congr same tabled.beside.link texts
  refine ⟨tabled.named.congr same size texts,tabled.beside.congr size same,?_,by rw [symbols,tabled.null]⟩
  rw [symbolCount_congr same]
  exact tabled.hashed.congr words (fun i _ => by rw [symbols]) (fun i _ => names i)

theorem findSymbol_eq (name : String) : arena.findSymbol table name =
      latest (fun i => (arena.symbol table i).isLocal = false ∧ arena.symbolName table i = name)
        (arena.symbolCount table) := by
  have buckets := tabled.hashed.buckets
  have inside := Nat.mod_lt (hashName (ofString name)).toNat buckets.1
  have head := tabled.hashed.chained.heads _ inside
  simp only [findSymbol,tabled.beside.chains]
  rw [if_neg (by simp; omega)]
  have found := chase_latest tabled.hashed.chained name
    ((hashName (ofString name)).toNat % (arena.get hash).word 0) _ (arena.symbolCount table + 1)
    (Nat.le_refl _) (Nat.le_succ _)
  rw [← head] at found
  exact found.trans (latest_congr fun i _ => bucket_of_name name i)

theorem null_name : arena.symbolName table 0 = "" := by
  have empty : ofString "" = [] := isEmpty_iff_ofString.mp (by decide)
  refine symbolName_eq tabled.beside.link ?_ (by simp [empty])
  rw [tabled.null,empty]
  exact tabled.named.zero

theorem shared_pos (shared : (arena.symbol table i).isLocal = false) : 0 < i := by
  apply pos_of_ne_zero
  rintro rfl
  rw [tabled.null] at shared
  cases shared

theorem findSymbol_none (none : arena.findSymbol table name = 0)
    (below : i < arena.symbolCount table) (shared : (arena.symbol table i).isLocal = false) :
    arena.symbolName table i ≠ name := by
  intro named
  rw [tabled.findSymbol_eq] at none
  rcases latest_cases (p := fun i => (arena.symbol table i).isLocal = false ∧ arena.symbolName table i = name)
    with ⟨_,nobody⟩ | ⟨positive,_⟩
  · exact nobody i (tabled.shared_pos shared) below ⟨shared,named⟩
  · omega

theorem findSymbol_some (found : arena.findSymbol table name ≠ 0) :
    arena.findSymbol table name < arena.symbolCount table ∧
      (arena.symbol table (arena.findSymbol table name)).isLocal = false ∧
      arena.symbolName table (arena.findSymbol table name) = name := by
  rw [tabled.findSymbol_eq] at found ⊢
  rcases latest_cases (p := fun i => (arena.symbol table i).isLocal = false ∧ arena.symbolName table i = name)
    with ⟨zero,_⟩ | ⟨_,below,holds⟩
  · exact absurd zero found
  · exact ⟨below,holds⟩

/-- Putting a symbol writes its name and its record and then enters it in the hash table. -/
theorem putSymbol_record (small : (arena.get strings).size < 2 ^ 32)
    (entry : SymbolEntry) (free : 0 ∉ ofString name) :
    arena.putSymbol table entry name = (arena.symbolCount table,
      (arena.record table strings entry name).enterHash table hash (arena.symbolCount table) name entry.isLocal) := by
  obtain ⟨_,_,framed⟩ := record_extended tabled.named small entry free
  have chains : ((arena.record table strings entry name).get table).hash = some hash := by
    obtain ⟨_,_,_,eq⟩ := framed.rewritten table
    rw [eq]
    exact tabled.beside.chains
  obtain ⟨offset,middle,eq,first,_⟩ := name_put tabled.named small name
  rw [record,eq] at chains
  have same : middle.get table = arena.get table := first.others _ (by simpa using Ne.symm tabled.named.strings_ne)
  simp only [Arena.putSymbol,tabled.beside.link,eq,chains,record,symbolCount_congr same]

theorem recorded (small : (arena.get strings).size < 2 ^ 32) (entry : SymbolEntry) (free : 0 ∉ ofString name) :
    let after := arena.record table strings entry name
    Beside after table strings hash ∧ Hashed after table hash (arena.symbolCount table) ∧
      (after.symbol table (arena.symbolCount table)).isLocal = entry.isLocal := by
  obtain ⟨named,extended,framed⟩ := record_extended tabled.named small entry free
  have beside := tabled.beside
  refine ⟨⟨named.link,?_,by rw [framed.size]; exact beside.bound,beside.hash_ne,beside.hash_apart⟩,?_,?_⟩
  · obtain ⟨_,_,_,eq⟩ := framed.rewritten table
    rw [eq]
    exact beside.chains
  · exact tabled.hashed.congr (framed.others _ (by simp [beside.hash_ne,beside.hash_apart]))
      (fun i below => by rw [extended.symbol i below]) extended.symbolName
  · obtain ⟨_,eq⟩ := extended.newSymbol
    rw [eq]
    rfl

theorem putSymbol (small : (arena.get strings).size < 2 ^ 32)
    (few : arena.symbolCount table + 1 < 2 ^ 32) (entry : SymbolEntry) (free : 0 ∉ ofString name) :
    let after := (arena.putSymbol table entry name).2
    (arena.putSymbol table entry name).1 = arena.symbolCount table ∧ Tabled after table strings hash ∧
      Extended table entry name arena after ∧ Framed [table,strings,hash] arena after := by
  obtain ⟨named,extended,framed⟩ := record_extended tabled.named small entry free
  obtain ⟨beside,covers,isLocal⟩ := tabled.recorded small entry free
  obtain ⟨hashed,entered⟩ := enterHash_hashed beside covers extended.count few
  rw [extended.newName,isLocal] at hashed entered
  obtain ⟨symbols,names,count⟩ := beside.symbols entered
  rw [tabled.putSymbol_record small entry free]
  have wide : Framed [table,strings,hash] arena ((arena.record table strings entry name).enterHash table hash
      (arena.symbolCount table) name entry.isLocal) :=
    (framed.mono (by simp)).trans (entered.mono (by simp))
  have same := entered.others table (by simpa using Ne.symm beside.hash_ne)
  have texts := entered.others strings (by simpa using Ne.symm beside.hash_apart)
  have size := le_of_eq entered.size.symm
  refine ⟨rfl,⟨named.congr same size texts,beside.congr size same,?_,?_⟩,⟨?_,?_,?_,?_,?_⟩,wide⟩
  · rwa [count,extended.count]
  · rw [symbols,extended.symbol 0 tabled.positive,tabled.null]
  · rw [count,extended.count]
  · intro i below
    rw [symbols,extended.symbol i below]
  · intro i below
    rw [names,extended.symbolName i below]
  · rw [symbols]
    exact extended.newSymbol
  · rw [names,extended.newName]

theorem symbol_setSymbol (below : i < arena.symbolCount table) (sym : Symbol) (j : Nat) :
    (arena.setSymbol table i sym).symbol table j = if j = i then sym else arena.symbol table j := by
  split
  next here => rw [here,symbol_setSymbol_same tabled.named.table_bound tabled.named.records.stored below]
  next other => rw [symbol_setSymbol_other other]

end

theorem setSymbol (tabled : Tabled arena table strings hash) (positive : 0 < i)
    (below : i < arena.symbolCount table) (nameOffset : sym.nameOffset = (arena.symbol table i).nameOffset)
    (own : sym.isLocal = (arena.symbol table i).isLocal) :
    let after := arena.setSymbol table i sym
    Tabled after table strings hash ∧ (∀ j, after.symbolName table j = arena.symbolName table j) ∧
      after.symbolCount table = arena.symbolCount table ∧ Framed [table] arena after := by
  intro after
  have named := tabled.named
  have symbols j : after.symbol table j = _ := tabled.symbol_setSymbol below sym j
  have framed : Framed [table] arena after := .update arena (by simp) (.patch _ _ _)
  have same : after.get table = (arena.get table).patch (i * Symbol.recordSize) sym.encode :=
    get_update_same named.table_bound
  have texts : after.get strings = arena.get strings := framed.others _ (by simpa using named.strings_ne)
  have words : after.get hash = arena.get hash := framed.others _ (by simpa using tabled.beside.hash_ne)
  have count : after.symbolCount table = _ := symbolCount_setSymbol i sym
  have offsets j : (after.symbol table j).nameOffset = (arena.symbol table j).nameOffset := by
    rw [symbols]
    split
    next here => rw [here,nameOffset]
    next => rfl
  have link : (after.get table).link = some strings := by
    rw [same,link_patch,named.link]
  have names j : after.symbolName table j = arena.symbolName table j := by
    simp only [symbolName,link,named.link,string,texts,offsets]
  refine ⟨⟨⟨?_,?_,named.strings_ne,link,?_,?_,?_,?_,?_,?_⟩,⟨link,?_,?_,tabled.beside.hash_ne,tabled.beside.hash_apart⟩,?_,?_⟩,
    names,count,framed⟩
  · rw [framed.size]
    exact named.table_bound
  · rw [framed.size]
    exact named.strings_bound
  · rw [same]
    exact patch_backed named.records _ _
  · rw [texts]
    exact named.texts
  · rw [count,same,size_patch,named.whole]
  · intro j inside
    rw [texts,offsets,names]
    exact named.names j (by rwa [← count])
  · rw [texts]
    exact named.zero
  · rw [texts,count,named.room]
    simp only [names]
  · rw [same,hash_patch,tabled.beside.chains]
  · rw [framed.size]
    exact tabled.beside.bound
  · rw [count]
    refine tabled.hashed.congr words (fun j _ => ?_) (fun j _ => names j)
    rw [symbols]
    split
    next here => rw [here,own]
    next => rfl
  · rw [symbols,if_neg (by omega),tabled.null]

end Tabled

/-- What adding a symbol that is not local comes to: it is new, or it meets the one of its name, which keeps its
place and its name. -/
theorem addSymbol_cases (shared : entry.isLocal = false) (added : arena.addSymbol table entry name = .ok (i,after)) :
    (arena.findSymbol table name = 0 ∧ (i,after) = arena.putSymbol table entry name) ∨
    (arena.findSymbol table name ≠ 0 ∧ i = arena.findSymbol table name ∧
      (after = arena ∨ after = arena.setSymbol table i { arena.symbol table i with size := entry.size } ∨
        after = arena.setSymbol table i (entry.withName (arena.symbol table i).nameOffset))) := by
  simp only [addSymbol,shared,Bool.false_eq_true,if_false] at added
  split at added
  next absent => exact Or.inl ⟨by simpa using absent,(Except.ok.inj added).symm⟩
  next present =>
    have found : arena.findSymbol table name ≠ 0 := by simpa using present
    refine Or.inr ⟨found,?_⟩
    split at added
    · cases added
      exact ⟨rfl,Or.inl rfl⟩
    · cases added
      exact ⟨rfl,Or.inr (Or.inl rfl)⟩
    · cases added
      exact ⟨rfl,Or.inr (Or.inr rfl)⟩
    · cases added

end OnePass.Elf.Arena
