import Glog.Memory.Cells
import Glog.Symbolize.Reading
import Glog.Text.Lines

/-! # Reading lines

`LineReader` gives the lines of a file one by one, out of a buffer that it fills. A line that is not complete is moved to
the front, and the rest is read behind it. Pointers are offsets from `buf_`; `used` is a ghost that remembers which
ranges of the buffer have been accessed. -/

namespace Glog.Symbolize
open Lines Memory Run

/-! ### The class -/

/-- The buffer of a reader; no object is larger than `PTRDIFF_MAX`. -/
structure LineBuffer where
  len : Nat
  pos : 1 ≤ len
  lt : len < 2 ^ 63

inductive LineFault
  | read (fault : Fault)
  | safeAssert
  | nullPointer

structure LineReader where
  buf : Cells UInt8
  offset : Nat
  bol : Nat
  /-- `none` is `nullptr`. -/
  eol : Option Nat
  eod : Nat
  /-- The number of the next call of `pread`. -/
  call : Nat
  used : List (Nat × Nat)

def lineFeed : UInt8 := '\n'.toUInt8

namespace LineReader

def create (contents : Nat → UInt8) (offset call : Nat) : LineReader := ⟨⟨contents, []⟩, offset, 0, some 0, 0, call, []⟩

/-- The range from `lo` to `hi` is accessed. -/
def use (lo hi : Nat) (s : LineReader) : LineReader := { s with used := (lo, hi) :: s.used }

/-- What is between `bol_` and `eod_`. -/
def data (s : LineReader) : Bytes := s.buf.slice s.bol (s.eod - s.bol)

def findLineFeed (s : LineReader) : Option Nat := (s.data.idxOf? lineFeed).map (s.bol + ·)

/-- The text from the file behind `append_pos`; whether there is any. -/
def append (pread : Pread) (buffer : LineBuffer) (appendPos : Nat) (s : LineReader) :
    Except LineFault (Bool × LineReader) :=
  match readFromOffset pread (buffer.len - appendPos) s.offset s.call with
  | .error fault => .error (.read fault)
  | .ok read =>
    let s := { s.use appendPos buffer.len with call := read.call }
    match read.bytes.getD [] with
    | [] => .ok (false, s)  -- EOF or error.
    | b :: bytes => .ok (true, { s with
        buf := s.buf.store appendPos (b :: bytes)
        offset := (s.offset + (b :: bytes).length) % 2 ^ 64
        eod := appendPos + (b :: bytes).length
        bol := 0 })

/-- The end of `ReadLine`: the line from `bol_` on, if there is one. -/
def finish (s : LineReader) : Option (Nat × Nat) × LineReader :=
  let s := s.use s.bol s.eod
  match s.findLineFeed with
  | none => (none, { s with eol := none })
  | some eol => (some (s.bol, eol), { s.use eol (eol + 1) with buf := s.buf.write eol 0, eol := some eol })

/-- `ReadLine`: the pointers to the line, or none for `false`. -/
def readLine (pread : Pread) (buffer : LineBuffer) (s : LineReader) : Except LineFault (Option (Nat × Nat) × LineReader) :=
  if s.eod = 0 then
    -- First time.
    (s.append pread buffer 0).map fun (more, s) => if more then s.finish else (none, s)
  else
    match s.eol with
    | none => .error .nullPointer
    | some eol =>
      let s := { s with bol := eol + 1 }
      if s.bol ≤ s.eod then
        let s := s.use s.bol s.eod
        if s.findLineFeed.isSome then .ok s.finish
        else
          -- Move the trailing incomplete line to the beginning.
          let incompleteLineLength := s.eod - s.bol
          let s := { s.use 0 incompleteLineLength with buf := s.buf.store 0 s.data }
          (s.append pread buffer incompleteLineLength).map fun (more, s) => if more then s.finish else (none, s)
      else .error .safeAssert

end LineReader

/-! ### What is read -/

/-- All that has been accessed lies in the buffer. -/
def Inside (buffer : LineBuffer) (s : LineReader) : Prop := ∀ range ∈ s.used, range.1 ≤ range.2 ∧ range.2 ≤ buffer.len

/-- The calls of `ReadLine` up to the first one that returns `false`: the lines that they give, each terminated. -/
inductive Yields (pread : Pread) (buffer : LineBuffer) : LineReader → List Bytes → Prop
  | done {s s' : LineReader} : s.readLine pread buffer = .ok (none, s') → Inside buffer s' → Yields pread buffer s []
  | line {s s' : LineReader} {bol eol : Nat} {line : Bytes} {lines : List Bytes} :
      s.readLine pread buffer = .ok (some (bol, eol), s') → eol = bol + line.length → s'.buf.slice bol line.length = line →
      s'.buf.cell eol = 0 → Inside buffer s' → Yields pread buffer s' lines → Yields pread buffer s (line :: lines)

/-- What the reader has still to give: what is in the buffer behind the last line, and what is behind that in the file. -/
inductive At (file : File) (buffer : LineBuffer) : LineReader → Bytes → Prop
  | first {s : LineReader} : s.eod = 0 → s.offset < 2 ^ 63 → At file buffer s (file.content.drop s.offset)
  | behind {s : LineReader} {eol : Nat} : s.eol = some eol → eol < s.eod → s.eod ≤ buffer.len → s.offset < 2 ^ 63 →
      At file buffer s (s.buf.slice (eol + 1) (s.eod - (eol + 1)) ++ file.content.drop s.offset)

/-- The reader looks for the end of a line that begins at `bol_`: it is in the buffer, or nothing more fits in, or the file
is at its end. -/
structure Loaded (file : File) (buffer : LineBuffer) (s : LineReader) (text : Bytes) : Prop where
  le : s.bol ≤ s.eod
  eod : s.eod ≤ buffer.len
  pos : 0 < s.eod
  offset : s.offset < 2 ^ 63
  text : text = s.data ++ file.content.drop s.offset
  full : lineFeed ∈ s.data ∨ s.data.length = buffer.len ∨ file.content.drop s.offset = []

section
variable {file : File} {pread : Pread} {buffer : LineBuffer} {s s' : LineReader} {text line rest : Bytes} {lo hi : Nat}

theorem Inside.use (h : Inside buffer s) (hle : lo ≤ hi) (hhi : hi ≤ buffer.len) : Inside buffer (s.use lo hi) := by
  intro range hrange
  rcases List.mem_cons.mp hrange with rfl | hrange
  · exact ⟨hle, hhi⟩
  · exact h range hrange

theorem length_data : s.data.length = s.eod - s.bol := length_slice

/-! ### Looking for the end of the line -/

theorem findLineFeed_of_not_mem (h : lineFeed ∉ s.data) : s.findLineFeed = none := by
  rw [LineReader.findLineFeed, List.idxOf?_eq_none_iff.mpr h]
  rfl

theorem findLineFeed_of_line (h : s.data = line ++ lineFeed :: rest) (hline : lineFeed ∉ line) :
    s.findLineFeed = some (s.bol + line.length) := by
  rw [LineReader.findLineFeed, h, idxOf?_line hline]
  rfl

theorem finish_of_not_mem (h : lineFeed ∉ s.data) : s.finish = (none, { s.use s.bol s.eod with eol := none }) := by
  have hfind : (s.use s.bol s.eod).findLineFeed = none := findLineFeed_of_not_mem h
  rw [LineReader.finish]
  simp only [hfind]

/-- The line, with its end terminated. -/
theorem finish_of_line (h : s.data = line ++ lineFeed :: rest) (hline : lineFeed ∉ line) :
    s.finish =
      (some (s.bol, s.bol + line.length), { (s.use s.bol s.eod).use (s.bol + line.length) (s.bol + line.length + 1) with
      buf := s.buf.write (s.bol + line.length) 0, eol := some (s.bol + line.length) }) := by
  have hfind : (s.use s.bol s.eod).findLineFeed = some (s.bol + line.length) := findLineFeed_of_line h hline
  rw [LineReader.finish]
  simp only [hfind]
  rfl

theorem Loaded.mem_iff (h : Loaded file buffer s text) :
    lineFeed ∈ s.data ↔ ∃ line rest, Starts lineFeed buffer.len text line rest := by
  have hlength := length_data (s := s)
  have hle := h.le
  have heod := h.eod
  constructor
  · intro hmem
    obtain ⟨line, rest, hdata, hline⟩ := List.eq_append_cons_of_mem hmem
    have hcount := congrArg List.length hdata
    rw [List.length_append, List.length_cons] at hcount
    refine ⟨line, rest ++ file.content.drop s.offset, ?_, hline, by omega⟩
    rw [h.text, hdata, List.append_assoc, List.cons_append]
  · rintro ⟨line, rest, hstarts⟩
    rcases h.full with hmem | hfull | hend
    · exact hmem
    · -- the whole buffer is the beginning of the text, and the line is not longer
      have hfits := hstarts.fits
      have hboth : line ++ lineFeed :: rest = s.data ++ file.content.drop s.offset := hstarts.eq.symm.trans h.text
      have htake := congrArg (List.take s.data.length) hboth
      rw [List.take_left, List.take_append, List.take_of_length_le (by omega)] at htake
      obtain ⟨k, hk⟩ : ∃ k, s.data.length - line.length = k + 1 := ⟨s.data.length - line.length - 1, by omega⟩
      rw [hk, List.take_succ_cons] at htake
      rw [← htake]
      exact List.mem_append_right _ List.mem_cons_self
    · have htext := h.text
      rw [hend, List.append_nil, hstarts.eq] at htext
      rw [← htext]
      exact List.mem_append_right _ List.mem_cons_self

/-- Where the text begins with a line, it is given, and the rest is left. -/
theorem Loaded.finish_line (h : Loaded file buffer s text) (hinside : Inside buffer s)
    (hstarts : Starts lineFeed buffer.len text line rest) : ∃ s', s.finish = (some (s.bol, s.bol + line.length), s') ∧
      s'.buf.slice s.bol line.length = line ∧ s'.buf.cell (s.bol + line.length) = 0 ∧ At file buffer s' rest ∧
      Inside buffer s' := by
  obtain ⟨line', more, hdata, hline'⟩ := List.eq_append_cons_of_mem (h.mem_iff.mpr ⟨line, rest, hstarts⟩)
  have htext := h.text
  rw [hdata, hstarts.eq, List.append_assoc, List.cons_append] at htext
  obtain ⟨rfl, rfl⟩ := line_unique htext hstarts.not_mem hline'
  have hlength := congrArg List.length hdata
  rw [length_data, List.length_append, List.length_cons] at hlength
  have hle := h.le
  have heod := h.eod
  have hkeep : ∀ k, k ≠ s.bol + line.length → (s.buf.write (s.bol + line.length) 0).cell k = s.buf.cell k :=
    fun k hk => cell_write_of_ne hk
  refine ⟨_, finish_of_line hdata hline', ?_, cell_write_self, ?_, ?_⟩
  · obtain ⟨hfirst, -⟩ := slice_split hdata
    dsimp only
    rw [slice_congr (m := s.buf) fun k hk => hkeep _ (by omega), hfirst]
  · have hdata' : s.data = (line ++ [lineFeed]) ++ more := by rw [hdata, List.append_assoc, List.singleton_append]
    obtain ⟨-, hsecond⟩ := slice_split hdata'
    rw [List.length_append, List.length_singleton] at hsecond
    have hcount : s.eod - (s.bol + line.length + 1) = more.length := by omega
    have hmore : (s.buf.write (s.bol + line.length) 0).slice (s.bol + line.length + 1) (s.eod - (s.bol + line.length + 1))
        = more := by
      rw [hcount, slice_congr (m := s.buf) fun k hk => hkeep _ (by omega)]
      exact hsecond
    have hat := @At.behind file buffer { (s.use s.bol s.eod).use (s.bol + line.length) (s.bol + line.length + 1) with
      buf := s.buf.write (s.bol + line.length) 0, eol := some (s.bol + line.length) } (s.bol + line.length) rfl
      (show s.bol + line.length < s.eod by omega) heod h.offset
    rw [← hmore]
    exact hat
  · exact (hinside.use hle heod).use (by omega) (by omega)

/-! ### Reading from the file -/

/-- What is read behind `append_pos`. -/
def piece (file : File) (buffer : LineBuffer) (appendPos offset : Nat) : Bytes :=
  (file.content.drop offset).take (buffer.len - appendPos)

theorem append_eq (hholds : Holds file pread) (hoffset : s.offset < 2 ^ 63) {appendPos : Nat}
    (hpos : appendPos < buffer.len) :
    ∃ call, s.append pread buffer appendPos = match piece file buffer appendPos s.offset with
      | [] => .ok (false, { s.use appendPos buffer.len with call := call })
      | b :: bytes => .ok (true, { s.use appendPos buffer.len with
          call := call
          buf := s.buf.store appendPos (b :: bytes)
          offset := (s.offset + (b :: bytes).length) % 2 ^ 64
          eod := appendPos + (b :: bytes).length
          bol := 0 }) := by
  have hlt := buffer.lt
  have hread := @readFromOffset_ok pread (buffer.len - appendPos) s.offset s.call (by omega)
  have hbytes := @bytes_readLoop file pread (buffer.len - appendPos) s.offset s.call hholds (by omega) (by omega)
  rw [File.bytes, if_neg (by omega)] at hbytes
  rw [LineReader.append, hread]
  dsimp only
  rw [hbytes]
  exact ⟨_, rfl⟩

/-- At the end of the file there is nothing more. -/
theorem append_end (hholds : Holds file pread) (hoffset : s.offset < 2 ^ 63) {appendPos : Nat}
    (hpos : appendPos < buffer.len) (hend : file.content.drop s.offset = []) :
    ∃ call, s.append pread buffer appendPos = .ok (false, { s.use appendPos buffer.len with call := call }) := by
  obtain ⟨call, happend⟩ := append_eq hholds hoffset hpos
  have hpiece : piece file buffer appendPos s.offset = [] := by rw [piece, hend, List.take_nil]
  rw [hpiece] at happend
  exact ⟨call, happend⟩

/-- Otherwise the buffer is loaded, behind what is in it already. -/
theorem append_loaded (hholds : Holds file pread) (hoffset : s.offset < 2 ^ 63) {l : Bytes} (hpos : l.length < buffer.len)
    (hslice : s.buf.slice 0 l.length = l) (hmore : file.content.drop s.offset ≠ []) (hinside : Inside buffer s) :
    ∃ s', s.append pread buffer l.length = .ok (true, s') ∧ Loaded file buffer s' (l ++ file.content.drop s.offset) ∧
      Inside buffer s' := by
  obtain ⟨call, happend⟩ := append_eq hholds hoffset hpos
  have hsize := file.size_lt
  have hlength : (piece file buffer l.length s.offset).length =
      min (buffer.len - l.length) (file.content.length - s.offset) := by
    rw [piece, List.length_take, List.length_drop]
  have hpositive : 0 < file.content.length - s.offset := by
    rw [← List.length_drop]
    exact List.length_pos_iff.mpr hmore
  have hsplit : file.content.drop s.offset =
      piece file buffer l.length s.offset ++
        file.content.drop (s.offset + (piece file buffer l.length s.offset).length) := by
    have htake : piece file buffer l.length s.offset =
        (file.content.drop s.offset).take (piece file buffer l.length s.offset).length := by
      rw [hlength, piece, ← List.length_drop, ← List.take_eq_take_min]
    rw [← List.drop_drop]
    conv_rhs => lhs; rw [htake]
    exact (List.take_append_drop _ _).symm
  cases hpiece : piece file buffer l.length s.offset with
  | nil =>
    rw [hpiece, List.length_nil] at hlength
    omega
  | cons b bytes =>
    rw [hpiece] at happend hlength hsplit
    dsimp only at happend
    have hnext : (s.offset + (b :: bytes).length) % 2 ^ 64 = s.offset + (b :: bytes).length := Nat.mod_eq_of_lt (by omega)
    have hdata : (s.buf.store l.length (b :: bytes)).slice 0 (l.length + (b :: bytes).length) = l ++ b :: bytes := by
      have hstored := slice_store_append hslice (b :: bytes)
      rwa [Nat.zero_add] at hstored
    refine ⟨_, happend, ⟨Nat.zero_le _, ?_, ?_, ?_, ?_, ?_⟩, hinside.use (Nat.le_of_lt hpos) (Nat.le_refl _)⟩
    · dsimp only
      omega
    · dsimp only
      omega
    · dsimp only
      omega
    · dsimp only [LineReader.data]
      rw [hnext, Nat.sub_zero, hdata, List.append_assoc, ← hsplit]
    · dsimp only [LineReader.data]
      rw [hnext, Nat.sub_zero, hdata]
      rcases Nat.le_total (buffer.len - l.length) (file.content.length - s.offset) with hle | hle
      · refine Or.inr (Or.inl ?_)
        rw [List.length_append]
        omega
      · exact Or.inr (Or.inr (List.drop_eq_nil_of_le (by omega)))

/-! ### One call -/

/-- The reader looks for the end of the next line. -/
def LineReader.atNext (eol : Nat) (s : LineReader) : LineReader := { s with bol := eol + 1 }.use (eol + 1) s.eod

/-- The trailing incomplete line is at the beginning. -/
def LineReader.moved (s : LineReader) : LineReader := { s.use 0 s.data.length with buf := s.buf.store 0 s.data }

theorem readLine_behind {eol : Nat} (heol : s.eol = some eol) (hlt : eol < s.eod) : s.readLine pread buffer =
    if (s.atNext eol).findLineFeed.isSome then .ok (s.atNext eol).finish
    else ((s.atNext eol).moved.append pread buffer (s.atNext eol).data.length).map
      fun (more, s) => if more then s.finish else (none, s) := by
  have hpositive : s.eod ≠ 0 := by omega
  have hassert : eol + 1 ≤ s.eod := by omega
  rw [LineReader.readLine, if_neg hpositive]
  split
  · rename_i hnone
    exact absurd (hnone.symm.trans heol) (Option.some_ne_none eol).symm
  · rename_i eol' heol'
    obtain rfl : eol' = eol := Option.some.inj (heol'.symm.trans heol)
    rw [LineReader.moved, length_data]
    exact if_pos hassert

/-- Whether a call looks for the end of a line in a loaded buffer, or else returns `false` at a text that begins with
no line. -/
def Loads (file : File) (pread : Pread) (buffer : LineBuffer) (s : LineReader) (text : Bytes) : Prop :=
  ∃ s', Inside buffer s' ∧
    (s.readLine pread buffer = .ok (none, s') ∧ (∀ line rest, ¬ Starts lineFeed buffer.len text line rest) ∨
    s.readLine pread buffer = .ok s'.finish ∧ Loaded file buffer s' text)

theorem loads_first (hholds : Holds file pread) (hinside : Inside buffer s) (heod : s.eod = 0)
    (hoffset : s.offset < 2 ^ 63) :
    Loads file pread buffer s (file.content.drop s.offset) := by
  rw [Loads, LineReader.readLine, if_pos heod]
  by_cases hend : file.content.drop s.offset = []
  · obtain ⟨call, happend⟩ := append_end hholds hoffset buffer.pos hend
    rw [happend]
    refine ⟨{ s.use 0 buffer.len with call := call }, hinside.use (Nat.zero_le _) (Nat.le_refl _), Or.inl ⟨rfl, ?_⟩⟩
    intro line rest hstarts
    exact List.append_ne_nil_of_right_ne_nil line (List.cons_ne_nil _ rest) (hstarts.eq.symm.trans hend)
  · obtain ⟨s', happend, hloaded, hinside'⟩ :=
      @append_loaded file pread buffer s hholds hoffset [] buffer.pos rfl hend hinside
    rw [List.length_nil] at happend
    rw [happend]
    exact ⟨s', hinside', Or.inr ⟨rfl, hloaded⟩⟩

/-- The incomplete line is completed, as far as it fits. -/
theorem append_moved (hholds : Holds file pread) {t : LineReader} (hoffset : t.offset < 2 ^ 63)
    (hpos : t.data.length < buffer.len) (hmem : lineFeed ∉ t.data) (hinside : Inside buffer t) :
    ∃ more s', t.moved.append pread buffer t.data.length = .ok (more, s') ∧
      Inside buffer s' ∧ if more then Loaded file buffer s' (t.data ++ file.content.drop t.offset)
        else ∀ line rest, ¬ Starts lineFeed buffer.len (t.data ++ file.content.drop t.offset) line rest := by
  have hmoved : Inside buffer t.moved := hinside.use (Nat.zero_le _) (Nat.le_of_lt hpos)
  by_cases hend : file.content.drop t.offset = []
  · obtain ⟨call, happend⟩ := @append_end file pread buffer t.moved hholds hoffset t.data.length hpos hend
    refine ⟨false, { t.moved.use t.data.length buffer.len with call := call }, happend,
      hmoved.use (Nat.le_of_lt hpos) (Nat.le_refl _), ?_⟩
    rw [hend, List.append_nil, if_neg Bool.false_ne_true]
    intro line rest hstarts
    rw [hstarts.eq] at hmem
    exact hmem (List.mem_append_right _ List.mem_cons_self)
  · obtain ⟨s', happend, hloaded, hinside'⟩ :=
      @append_loaded file pread buffer t.moved hholds hoffset t.data hpos (slice_store 0) hend hmoved
    exact ⟨true, s', happend, hinside', hloaded⟩

theorem loads_behind (hholds : Holds file pread) (hinside : Inside buffer s) {eol : Nat} (heol : s.eol = some eol)
    (hlt : eol < s.eod) (hle : s.eod ≤ buffer.len) (hoffset : s.offset < 2 ^ 63) :
    Loads file pread buffer s ((s.atNext eol).data ++ file.content.drop s.offset) := by
  have hinside' : Inside buffer (s.atNext eol) := hinside.use (show eol + 1 ≤ s.eod by omega) hle
  have hlength : (s.atNext eol).data.length = s.eod - (eol + 1) := length_data
  rw [Loads, readLine_behind heol hlt]
  by_cases hmem : lineFeed ∈ (s.atNext eol).data
  · obtain ⟨line, rest, hline, hnot⟩ := List.eq_append_cons_of_mem hmem
    rw [findLineFeed_of_line hline hnot]
    exact ⟨s.atNext eol, hinside', Or.inr ⟨rfl, hlt, hle, Nat.zero_lt_of_lt hlt, hoffset, rfl, Or.inl hmem⟩⟩
  · rw [findLineFeed_of_not_mem hmem]
    obtain ⟨more, s', happend, hinside'', hmore⟩ :=
      @append_moved file pread buffer hholds (s.atNext eol) hoffset (by omega) hmem hinside'
    rw [happend]
    cases more with
    | true => exact ⟨s', hinside'', Or.inr ⟨rfl, hmore⟩⟩
    | false => exact ⟨s', hinside'', Or.inl ⟨rfl, hmore⟩⟩

theorem readLine_cases (hholds : Holds file pread) (hat : At file buffer s text) (hinside : Inside buffer s) :
    Loads file pread buffer s text := by
  cases hat with
  | first heod hoffset => exact loads_first hholds hinside heod hoffset
  | behind heol hlt hle hoffset => exact loads_behind hholds hinside heol hlt hle hoffset

theorem readLine_of_not_starts (hholds : Holds file pread) (hat : At file buffer s text) (hinside : Inside buffer s)
    (hnone : ∀ line rest, ¬ Starts lineFeed buffer.len text line rest) :
    ∃ s', s.readLine pread buffer = .ok (none, s') ∧ Inside buffer s' := by
  obtain ⟨s', hinside', ⟨hread, -⟩ | ⟨hread, hloaded⟩⟩ := readLine_cases hholds hat hinside
  · exact ⟨s', hread, hinside'⟩
  · have hnot : lineFeed ∉ s'.data := fun hmem => by
      obtain ⟨line, rest, hstarts⟩ := hloaded.mem_iff.mp hmem
      exact hnone line rest hstarts
    rw [finish_of_not_mem hnot] at hread
    exact ⟨_, hread, hinside'.use hloaded.le hloaded.eod⟩

theorem readLine_of_starts (hholds : Holds file pread) (hat : At file buffer s text) (hinside : Inside buffer s)
    (hstarts : Starts lineFeed buffer.len text line rest) : ∃ bol s',
      s.readLine pread buffer = .ok (some (bol, bol + line.length), s') ∧ s'.buf.slice bol line.length = line ∧
      s'.buf.cell (bol + line.length) = 0 ∧ At file buffer s' rest ∧ Inside buffer s' := by
  obtain ⟨s', hinside', ⟨-, hnone⟩ | ⟨hread, hloaded⟩⟩ := readLine_cases hholds hat hinside
  · exact absurd hstarts (hnone line rest)
  · obtain ⟨s'', hfinish, hline⟩ := hloaded.finish_line hinside' hstarts
    rw [hfinish] at hread
    exact ⟨s'.bol, s'', hread, hline⟩

/-! ### All calls -/

theorem yields (hholds : Holds file pread) {lines : List Bytes} (hat : At file buffer s text) (hinside : Inside buffer s)
    (hlines : LongestPrefix lineFeed buffer.len text lines rest) : Yields pread buffer s lines := by
  induction lines generalizing s text with
  | nil =>
    have htext : text = rest := hlines.eq
    obtain ⟨s', hread, hinside'⟩ := readLine_of_not_starts hholds hat hinside (htext ▸ hlines.longest)
    exact .done hread hinside'
  | cons line lines ih =>
    obtain ⟨hstarts, hmore⟩ := hlines.starts
    obtain ⟨bol, s', hread, hline, hnul, hat', hinside'⟩ := readLine_of_starts hholds hat hinside hstarts
    exact .line hread rfl hline hnul hinside' (ih hat' hinside' hmore)

end

/-- From the beginning of a file the reader gives the longest beginning of it that consists of lines which fit into the
buffer, line by line, and then nothing. It accesses the buffer inside only, and its assertion holds. -/
theorem lines_of_file {file : File} {pread : Pread} (hholds : Holds file pread) (buffer : LineBuffer)
    (contents : Nat → UInt8) (call : Nat) : ∃ lines rest, LongestPrefix lineFeed buffer.len file.content lines rest ∧
      Yields pread buffer (.create contents 0 call) lines := by
  obtain ⟨lines, rest, hlines⟩ := exists_longestPrefix lineFeed buffer.len file.content
  have hat : At file buffer (.create contents 0 call) (file.content.drop 0) := .first rfl (Nat.two_pow_pos 63)
  exact ⟨lines, rest, hlines, yields hholds hat (fun range hrange => absurd hrange List.not_mem_nil) hlines⟩

/-- A line that fits exactly into three bytes, and one that does not. -/
theorem lines_of_file_two : ∃ lines rest, LongestPrefix lineFeed 3 [97, 98, 10, 97, 98, 99, 10] lines rest ∧
    Yields (File.pread ⟨[97, 98, 10, 97, 98, 99, 10], by decide⟩) ⟨3, by decide, by decide⟩
      (.create (fun _ => 0) 0 0) lines :=
  lines_of_file (holds_pread ⟨[97, 98, 10, 97, 98, 99, 10], by decide⟩) ⟨3, by decide, by decide⟩ (fun _ => 0) 0

end Glog.Symbolize
