import OnePass.Source

/-! # Files read through a window

A reader hands over its bytes in pieces of any size. They pass through a window of fixed size, and
behind the valid bytes of the window stands a sentinel, which is a backslash: only a backslash at
the end of the window asks for more. Joined lines are taken out behind the window, so that a
backslash and its line end may come with different fills. -/
namespace OnePass

/-- What meets a call to a reader. -/
inductive ReadCall where
  | interrupted
  | failed
  /-- One byte comes, and at most this many more. -/
  | short (more : Nat)
  deriving DecidableEq, Repr

/-- A source of bytes, with what its next calls meet. The calls behind these give all they can. -/
structure Reader where
  left : Bytes
  calls : List ReadCall := []
  deriving DecidableEq, Repr

inductive ReadResult where
  | interrupted
  | failed
  | bytes (chunk : Bytes)
  deriving DecidableEq, Repr

namespace Reader

variable {room : Nat} {reader later : Reader} {result : ReadResult}

def give (count : Nat) (calls : List ReadCall) (reader : Reader) : ReadResult × Reader :=
  (.bytes (reader.left.take count), ⟨reader.left.drop count, calls⟩)

def read (room : Nat) (reader : Reader) : ReadResult × Reader :=
  match reader.calls with
  | [] => reader.give room []
  | .interrupted :: calls => (.interrupted, { reader with calls })
  | .failed :: calls => (.failed, { reader with calls })
  | .short more :: calls => reader.give (min room (more + 1)) calls

theorem read_calls (read : reader.read room = (result, later)) :
    later.calls = reader.calls.tail ∧ (result = .interrupted → reader.calls ≠ []) := by
  unfold Reader.read give at read
  split at read <;> cases read <;> simp_all

theorem read_bytes {chunk : Bytes} (read : reader.read room = (.bytes chunk, later)) :
    chunk ++ later.left = reader.left ∧ chunk.length ≤ room ∧
      (chunk = [] → 0 < room → later.left = []) := by
  have given : ∀ count calls, count ≤ room → (0 < room → 0 < count) →
      reader.give count calls = (.bytes chunk, later) →
      chunk ++ later.left = reader.left ∧ chunk.length ≤ room ∧
        (chunk = [] → 0 < room → later.left = []) := by
    intro count calls most least given
    cases given
    refine ⟨List.take_append_drop _ _, by simp; omega, fun none some => ?_⟩
    have none := congrArg List.length none
    simp only [List.length_take, List.length_nil] at none
    exact List.drop_eq_nil_of_le (by have := least some; omega)
  unfold Reader.read at read
  split at read
  · exact given _ _ (Nat.le_refl _) id read
  · cases read
  · cases read
  · exact given _ _ (Nat.min_le_left _ _) (by omega) read

theorem read_left (read : reader.read room = (result, later)) (other : ∀ chunk, result ≠ .bytes chunk) :
    later.left = reader.left := by
  unfold Reader.read give at read
  split at read <;> cases read
  · exact absurd rfl (other _)
  · rfl
  · rfl
  · exact absurd rfl (other _)

end Reader

def Window.capacity : Nat := 8192

/-- The byte behind the valid bytes of a window. -/
def Window.sentinel : UInt8 := '\\'.toUInt8

/-- The bytes of a file that are at hand, and where the others come from. -/
structure Window where
  buffer : Array UInt8
  pos : Nat
  /-- Where the valid bytes end; what stands behind the sentinel is left over. -/
  stop : Nat
  reader : Option Reader
  pos_le : pos ≤ stop
  guarded : buffer[stop]? = some Window.sentinel
  wide : reader.isSome → Window.capacity < buffer.size

namespace Window

variable {buffer : Array UInt8} {start : Nat} {chunk : Bytes} {w later : Window} {b : UInt8}

/-- The bytes still to come. -/
def unread (w : Window) : Bytes :=
  (w.buffer.toList.take w.stop).drop w.pos ++ (w.reader.map (·.left)).getD []

def ofReader (reader : Reader) : Window where
  buffer := (Array.replicate (capacity + 1) 0).setIfInBounds 0 sentinel
  pos := 0
  stop := 0
  reader := some reader
  pos_le := Nat.le_refl 0
  guarded := by simp [capacity]
  wide := by simp

def ofBytes (text : Bytes) : Window where
  buffer := (text ++ [sentinel]).toArray
  pos := 0
  stop := text.length
  reader := none
  pos_le := Nat.zero_le _
  guarded := by simp
  wide := by simp

def write (buffer : Array UInt8) (start : Nat) (chunk : Bytes) : Array UInt8 :=
  buffer.extract 0 start ++ chunk.toArray ++ buffer.extract (start + chunk.length) buffer.size

theorem toList_write (buffer : Array UInt8) (start : Nat) (chunk : Bytes) : (write buffer start chunk).toList =
      buffer.toList.take start ++ chunk ++ buffer.toList.drop (start + chunk.length) := by
  have whole : (buffer.toList.drop (start + chunk.length)).length ≤ buffer.size - (start + chunk.length) := by
    simp
  simp [write, List.take_of_length_le whole]

theorem size_write (room : start + chunk.length ≤ buffer.size) : (write buffer start chunk).size = buffer.size := by
  rw [← Array.length_toList, toList_write]
  simp
  omega

theorem take_write (inside : start ≤ buffer.size) :
    (write buffer start chunk).toList.take (start + chunk.length) = buffer.toList.take start ++ chunk := by
  have whole : (buffer.toList.take start ++ chunk).length = start + chunk.length := by
    rw [List.length_append, List.length_take, Array.length_toList, Nat.min_eq_left inside]
  rw [toList_write, List.take_append_of_le_length (Nat.le_of_eq whole.symm),
    List.take_of_length_le (Nat.le_of_eq whole)]

/-- Read until the window is full or the reader has no more. The first `length` bytes are read. -/
def load (reader : Reader) (buffer : Array UInt8) (length : Nat) : Array UInt8 × Nat × Reader :=
  if length < capacity then
    match _call : reader.read (capacity - length) with
    | (.bytes (b :: more), later) =>
      load later (write buffer length (b :: more)) (length + (b :: more).length)
    | (.bytes [], later) => (buffer, length, later)
    | (.interrupted, later) => load later buffer length
    | (.failed, later) => (buffer, length, later)
  else (buffer, length, reader)
termination_by reader.calls.length + (capacity - length)
decreasing_by
  · have calls := congrArg List.length (Reader.read_calls _call).1
    simp only [List.length_tail, List.length_cons] at *
    omega
  · obtain ⟨calls, some⟩ := Reader.read_calls _call
    have := List.length_pos_iff.mpr (some rfl)
    have calls := congrArg List.length calls
    simp only [List.length_tail] at calls
    omega

/-- What is loaded: the bytes read so far stay, the others follow in order and none is lost. Unless a
call fails, loading ends with a full window or an empty reader. -/
structure Loaded (reader : Reader) (buffer : Array UInt8) (length : Nat)
    (result : Array UInt8 × Nat × Reader) : Prop where
  size : result.1.size = buffer.size
  length_le : result.2.1 ≤ capacity
  bytes : result.1.toList.take result.2.1 ++ result.2.2.left =
    buffer.toList.take length ++ reader.left
  calls : result.2.2.calls <:+ reader.calls
  whole : .failed ∉ reader.calls → result.2.1 = capacity ∨ result.2.2.left = []

theorem load_loaded (reader : Reader) (buffer : Array UInt8) (length : Nat) (most : length ≤ capacity)
    (wide : capacity < buffer.size) : Loaded reader buffer length (load reader buffer length) := by
  fun_induction load reader buffer length with
  | case1 reader buffer length room b more later call ih =>
    obtain ⟨left, fits, _⟩ := Reader.read_bytes call
    have calls := (Reader.read_calls call).1
    have tail : later.calls <:+ reader.calls := calls ▸ List.tail_suffix _
    have loaded := ih (by omega) (by rw [size_write (by omega)]; exact wide)
    refine ⟨loaded.size.trans (size_write (by omega)), loaded.length_le, ?_, loaded.calls.trans tail,
      fun steady => loaded.whole fun failed => steady (tail.mem failed)⟩
    rw [loaded.bytes, take_write (by omega), List.append_assoc, left]
  | case2 reader buffer length room later call =>
    obtain ⟨left, _, empty⟩ := Reader.read_bytes call
    have calls := (Reader.read_calls call).1
    exact ⟨rfl, most, by rw [← left, List.nil_append], calls ▸ List.tail_suffix _,
      fun _ => .inr (empty rfl (by omega))⟩
  | case3 reader buffer length room later call ih =>
    have calls := (Reader.read_calls call).1
    have tail : later.calls <:+ reader.calls := calls ▸ List.tail_suffix _
    have left := Reader.read_left call (by simp)
    have loaded := ih most wide
    exact ⟨loaded.size, loaded.length_le, left ▸ loaded.bytes, loaded.calls.trans tail,
      fun steady => loaded.whole fun failed => steady (tail.mem failed)⟩
  | case4 reader buffer length room later call =>
    have calls := (Reader.read_calls call).1
    refine ⟨rfl, most, by rw [Reader.read_left call (by simp)], calls ▸ List.tail_suffix _,
      fun steady => absurd ?_ steady⟩
    unfold Reader.read Reader.give at call
    split at call <;> simp_all
  | case5 reader buffer length full =>
    exact ⟨rfl, most, rfl, List.suffix_rfl, fun _ => .inl (Nat.le_antisymm most (Nat.le_of_not_lt full))⟩

def refill (buffer : Array UInt8) (reader : Reader) (wide : capacity < buffer.size) : Window where
  buffer := (load reader buffer 0).1.setIfInBounds (load reader buffer 0).2.1 sentinel
  pos := 0
  stop := (load reader buffer 0).2.1
  reader := some (load reader buffer 0).2.2
  pos_le := Nat.zero_le _
  guarded := by
    have loaded := load_loaded reader buffer 0 (Nat.zero_le _) wide
    have inside : (load reader buffer 0).2.1 < (load reader buffer 0).1.size := by
      rw [loaded.size]
      exact Nat.lt_of_le_of_lt loaded.length_le wide
    simp [inside]
  wide := fun _ => by
    rw [Array.size_setIfInBounds, (load_loaded reader buffer 0 (Nat.zero_le _) wide).size]
    exact wide

def fill (w : Window) : Bool × Window :=
  match source : w.reader with
  | none => (false, w)
  | some reader =>
    let filled := refill w.buffer reader (w.wide (by simp [source]))
    (filled.stop != 0, filled)

theorem pos_lt_size (w : Window) : w.pos < w.buffer.size := by
  have inside := (Array.getElem?_eq_some_iff.mp w.guarded).1
  have := w.pos_le
  omega

def front (w : Window) : UInt8 :=
  have := w.pos_lt_size
  w.buffer[w.pos]

def peek (w : Window) : Option UInt8 × Window :=
  if w.front == sentinel && w.stop ≤ w.pos then
    match w.fill with
    | (true, w) => (some w.front, w)
    | (false, w) => (none, w)
  else (some w.front, w)

theorem front_of_pos_eq (same : w.pos = w.stop) : w.front = sentinel := by
  obtain ⟨_, found⟩ := Array.getElem?_eq_some_iff.mp w.guarded
  simp only [front, same, found]

theorem fill_stop (filled : w.fill = (true, later)) : later.pos < later.stop := by
  unfold fill at filled
  split at filled
  · cases filled
  · simp only [Prod.mk.injEq, bne_iff_ne, ne_eq] at filled
    obtain ⟨some, rfl⟩ := filled
    exact Nat.pos_of_ne_zero some

theorem peek_pos_lt (seen : w.peek = (some b, later)) :
    later.pos < later.stop := by
  unfold peek at seen
  split at seen
  · split at seen
    next filled =>
      cases seen
      exact fill_stop filled
    next => cases seen
  next inside =>
    cases seen
    have := w.pos_le
    by_cases same : w.pos = w.stop
    · simp [front_of_pos_eq same, same] at inside
    · omega

def next (w : Window) : Option UInt8 × Window :=
  match seen : w.peek with
  | (some b, later) => (some b, { later with pos := later.pos + 1, pos_le := peek_pos_lt seen })
  | (none, later) => (none, later)

theorem refill_unread {reader : Reader} (wide : capacity < buffer.size) :
    (refill buffer reader wide).unread = reader.left := by
  have bytes := (load_loaded reader buffer 0 (Nat.zero_le _) wide).bytes
  rw [List.take_zero, List.nil_append] at bytes
  simp only [unread, refill, Array.toList_setIfInBounds, List.drop_zero, Option.map_some, Option.getD_some]
  rw [List.take_set_of_le (Nat.le_refl _), bytes]

theorem fill_unread (empty : w.pos = w.stop) : w.fill.2.unread = w.unread := by
  unfold fill
  split
  next => rfl
  next reader source =>
    have behind : (w.buffer.toList.take w.stop).drop w.stop = [] :=
      List.drop_eq_nil_of_le (List.length_take_le _ _)
    rw [refill_unread, unread, source, empty, behind]
    rfl

theorem unread_of_pos_lt (inside : w.pos < w.stop) :
    w.unread = w.front :: ({ w with pos := w.pos + 1, pos_le := inside } : Window).unread := by
  have := (Array.getElem?_eq_some_iff.mp w.guarded).1
  have bound : w.pos < (w.buffer.toList.take w.stop).length := by simp; omega
  simp only [unread, front]
  rw [List.drop_eq_getElem_cons bound]
  simp

theorem peek_unread (w : Window) : w.peek.2.unread = w.unread := by
  unfold peek
  split
  next empty =>
    simp only [Bool.and_eq_true, decide_eq_true_eq] at empty
    have kept := fill_unread (Nat.le_antisymm w.pos_le empty.2)
    split
    next filled => rwa [filled] at kept
    next filled => rwa [filled] at kept
  next => rfl

theorem unread_of_peek {b : Option UInt8} (seen : w.peek = (b, later)) :
    later.unread = w.unread := by
  have kept := peek_unread w
  rwa [seen] at kept

theorem peek_front (seen : w.peek = (some b, later)) : later.front = b := by
  unfold peek at seen
  split at seen
  · split at seen <;> cases seen
    rfl
  · cases seen
    rfl

theorem next_unread (read : w.next = (some b, later)) :
    w.unread = b :: later.unread := by
  unfold next at read
  split at read
  next c behind seen =>
    cases read
    rw [← unread_of_peek seen, unread_of_pos_lt (peek_pos_lt seen), peek_front seen]
  next => cases read

theorem next_length_le (w : Window) : w.next.2.unread.length ≤ w.unread.length := by
  rcases read : w.next with ⟨b | b, later⟩
  · unfold next at read
    split at read
    next => cases read
    next seen =>
      cases read
      exact Nat.le_of_eq (congrArg List.length (unread_of_peek seen))
  · rw [next_unread read]
    exact Nat.le_succ _

def character (line : UInt32) (w : Window) : Option UInt8 × UInt32 × Window :=
  match _read : w.next with
  | (some 0x5c, w₁) =>
    match _seen : w₁.peek with
    | (some 0x0a, w₂) => character (line + 1) w₂.next.2
    | (some 0x0d, w₂) =>
      match _behind : w₂.next.2.peek with
      | (some 0x0a, w₃) => character (line + 1) w₃.next.2
      | (_, w₃) => character (line + 1) w₃
    | (_, w₂) => (some 0x5c, line, w₂)
  | (b, w₁) => (b, line, w₁)
termination_by w.unread.length
decreasing_by
  all_goals
    have first := congrArg List.length (next_unread _read)
    have second := congrArg List.length (unread_of_peek _seen)
    rw [List.length_cons] at first
  · have := next_length_le w₂
    omega
  · have third := congrArg List.length (unread_of_peek _behind)
    have := next_length_le w₂
    have := next_length_le w₃
    omega
  · have third := congrArg List.length (unread_of_peek _behind)
    have := next_length_le w₂
    omega

theorem character_length (line : UInt32) (w : Window) :
    (w.character line).2.2.unread.length + (if (w.character line).1.isSome then 1 else 0) ≤ w.unread.length := by
  fun_induction character line w with
  | case1 line w w₁ read w₂ seen ih =>
    have first := congrArg List.length (next_unread read)
    have second := congrArg List.length (unread_of_peek seen)
    have := next_length_le w₂
    rw [List.length_cons] at first
    omega
  | case2 line w w₁ read w₂ seen w₃ behind ih =>
    have first := congrArg List.length (next_unread read)
    have second := congrArg List.length (unread_of_peek seen)
    have third := congrArg List.length (unread_of_peek behind)
    have := next_length_le w₂
    have := next_length_le w₃
    rw [List.length_cons] at first
    omega
  | case3 line w w₁ read w₂ seen _ w₃ _ behind ih =>
    have first := congrArg List.length (next_unread read)
    have second := congrArg List.length (unread_of_peek seen)
    have third := congrArg List.length (unread_of_peek behind)
    have := next_length_le w₂
    rw [List.length_cons] at first
    omega
  | case4 line w w₁ read b w₂ _ _ seen =>
    have first := congrArg List.length (next_unread read)
    have second := congrArg List.length (unread_of_peek seen)
    rw [List.length_cons] at first
    simp only [Option.isSome_some, if_true]
    omega
  | case5 line w b w₁ _ read =>
    cases b with
    | none =>
      have := next_length_le w
      rw [read] at this
      simpa using this
    | some b => simp [next_unread read]

end Window

structure WindowedFile where
  line : UInt32 := 1
  lineStart : Bool := true
  window : Window
  peeked : Option (Option UInt8) := none

namespace WindowedFile

def ofReader (reader : Reader) : WindowedFile := { window := .ofReader reader }

def ofBytes (text : Bytes) : WindowedFile := { window := .ofBytes text }

def peek (file : WindowedFile) : Option UInt8 × WindowedFile :=
  match file.peeked with
  | some b => (b, file)
  | none =>
    let (b, line, window) := file.window.character file.line
    (b, { file with line, window, peeked := some b })

def next (file : WindowedFile) : Option UInt8 × WindowedFile :=
  let (b, file) := file.peek
  let line := if b == some Ascii.newline then file.line + 1 else file.line
  (b, { file with line, peeked := none })

def eat (expected : UInt8) (file : WindowedFile) : Bool × WindowedFile :=
  let (b, file) := file.peek
  if b == some expected then (true, file.next.2) else (false, file)

/-- How many bytes may still become characters. -/
def left (file : WindowedFile) : Nat :=
  file.window.unread.length + if file.peeked.join.isSome then 1 else 0

theorem peek_left (file : WindowedFile) : file.peek.2.left ≤ file.left := by
  unfold peek
  split
  next => exact Nat.le_refl _
  next none =>
    have read := file.window.character_length file.line
    simpa [left, none] using read

theorem peeked_of_peek {file later : WindowedFile} {b : Option UInt8} (seen : file.peek = (b, later)) :
    later.peeked = some b := by
  unfold peek at seen
  split at seen
  next looked =>
    cases seen
    exact looked
  next =>
    obtain ⟨rfl, rfl⟩ := Prod.mk.inj seen
    rfl

theorem next_left {file later : WindowedFile} {b : UInt8} (seen : file.peek = (some b, later)) :
    later.next.2.left < file.left := by
  have kept := peek_left file
  have looked := peeked_of_peek seen
  have again : later.peek = (some b, later) := by
    unfold peek
    rw [looked]
  rw [seen] at kept
  simp only [next, again, left, looked, Option.join_some] at kept ⊢
  simp at kept ⊢
  omega

def scan (m : Scanner σ α) (state : σ) (file : WindowedFile) : α × WindowedFile :=
  match _seen : file.peek with
  | (none, file) => (m.onEnd state, file)
  | (some b, file) =>
    match m.onChar state file.line b with
    | .take state => scan m state file.next.2
    | .last result => (result, file.next.2)
    | .leave result => (result, file)
termination_by file.left
decreasing_by exact next_left _seen

end WindowedFile

instance : CharStream WindowedFile where
  line := WindowedFile.line
  lineStart := WindowedFile.lineStart
  restart fresh file := { file with lineStart := fresh }
  settle file := file.peek.2
  head? file := file.peek.1
  next := WindowedFile.next
  eat := WindowedFile.eat
  scan m state file := file.scan m state

end OnePass
