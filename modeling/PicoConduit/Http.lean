import PicoConduit.Delimited
import PicoConduit.Portal
import PicoConduit.Transport

namespace PicoConduit
open Checked Utf8
set_option autoImplicit true

/-- `read_http_headers`, for the bytes that arrive until the connection is closed: what it leaves
in a buffer of some size after the bytes it already holds. -/
def readHttpHeaders (size : Nat) (buf : Bytes) : Bytes → Bytes
  | [] => buf
  | b :: rest =>
    if buf.length < size then
      let buf := buf ++ [b]
      if (asBytes "\r\n\r\n").isSuffixOf buf then buf else readHttpHeaders size buf rest
    else buf

/-- The scan for the end of a line: the next newline, or the end of the block. -/
def lineEnd (raw : Bytes) (i : Nat) : Nat :=
  if h : i < raw.length then
    if raw[i] ≠ newline then lineEnd raw (i + 1) else i
  else i
termination_by raw.length - i

def stripCr (line : Bytes) : Bytes := (stripSuffix ['\r'.toUInt8] line).getD line

def toAsciiLower (b : UInt8) : UInt8 :=
  if 'A'.toUInt8 ≤ b ∧ b ≤ 'Z'.toUInt8 then b + 32 else b

def eqIgnoreAsciiCase (xs ys : Bytes) : Bool := xs.map toAsciiLower == ys.map toAsciiLower

/-- The value after a header's colon, without one leading space. -/
def headerValue (val : Bytes) : Bytes :=
  match val with
  | b :: rest => if b = ' '.toUInt8 then rest else val
  | [] => val

/-- The test of one line for the header of a name, and the value found. -/
def matchHeader (line name : Bytes) : Exec (Option Bytes) :=
  if line.length > name.length + 1 then do
    let c ← load line name.length
    if c = ':'.toUInt8 then do
      let key ← slice line 0 name.length
      if eqIgnoreAsciiCase key name then do
        let val ← slice line (name.length + 1) line.length
        pure (some (headerValue val))
      else pure none
    else pure none
  else pure none

/-- The loop of `extract_header` over the lines after the request line. -/
def extractHeaderLoop (raw name : Bytes) (start : Nat) : Exec (Option Bytes) :=
  match _hl : slice raw start (lineEnd raw start) with
  | .error q => .error q
  | .ok l =>
    let line := stripCr l
    if line.isEmpty then pure none
    else
      match matchHeader line name with
      | .error q => .error q
      | .ok (some val) => pure (some val)
      | .ok none => extractHeaderLoop raw name (lineEnd raw start + 1)
termination_by raw.length + 1 - start
decreasing_by
  have := slice_eq_ok _hl
  omega

def extractHeader (raw name : Bytes) : Exec (Option Bytes) :=
  extractHeaderLoop raw name (lineEnd raw 0 + 1)

/-- A line that carries the header of a name. -/
def IsHeader (l name : Bytes) : Prop :=
  name.length + 1 < l.length ∧ l[name.length]? = some ':'.toUInt8 ∧
    eqIgnoreAsciiCase (l.take name.length) name = true

instance : Decidable (IsHeader l name) := inferInstanceAs (Decidable (_ ∧ _ ∧ _))

/-- The search through the lines that follow the request line, which ends at a blank line or a
match and must not run out of lines before. -/
def lookupHeader (name : Bytes) : List Bytes → Exec (Option Bytes)
  | [] => .error .slice
  | l :: ls =>
    let line := stripCr l
    if line = [] then .ok none
    else if IsHeader line name then .ok (some (headerValue (line.drop (name.length + 1))))
    else lookupHeader name ls

theorem matchHeader_eq (line name : Bytes) : matchHeader line name = .ok
    (if IsHeader line name then some (headerValue (line.drop (name.length + 1))) else none) := by
  simp only [matchHeader, IsHeader, gt_iff_lt]
  by_cases hl : name.length + 1 < line.length
  · have hlt : name.length < line.length := by omega
    have hval : (line.drop (name.length + 1)).take (line.length - (name.length + 1)) =
        line.drop (name.length + 1) := List.take_of_length_le (by rw [List.length_drop])
    simp only [hl, ↓reduceIte, true_and, load_of_lt hlt, ok_bind, List.getElem?_eq_getElem hlt,
      Option.some.injEq, slice_zero (Nat.le_of_lt hlt),
      slice_of_le (Nat.le_of_lt hl) (Nat.le_refl _), hval, pure_eq]
    split
    · split <;> simp [*]
    · simp [*]
  · simp only [hl, ↓reduceIte, false_and, pure_eq]

theorem lineEnd_append (pre rest : Bytes) (h : newline ∉ line)
    (hr : ∀ b ∈ rest.head?, b = newline) :
    lineEnd (pre ++ (line ++ rest)) pre.length = pre.length + line.length := by
  induction line generalizing pre with
  | nil =>
    rw [lineEnd]
    cases rest with
    | nil => simp
    | cons b rest =>
      obtain rfl := hr b rfl
      simp
  | cons b line ih =>
    rw [List.mem_cons, not_or] at h
    have hi := ih (pre ++ [b]) h.2
    rw [List.length_append, List.length_singleton, List.append_assoc, List.singleton_append] at hi
    rw [lineEnd, dif_pos (by simp), if_pos (by simpa using Ne.symm h.1)]
    rw [List.cons_append, hi, List.length_cons]
    omega

theorem lineEnd_of_le (h : raw.length ≤ i) : lineEnd raw i = i := by
  rw [lineEnd, dif_neg (Nat.not_lt.2 h)]

theorem extractHeaderLoop_of_slice (h : slice raw start (lineEnd raw start) = .ok l) :
    extractHeaderLoop raw name start =
      if stripCr l = [] then .ok none
      else if IsHeader (stripCr l) name then
        .ok (some (headerValue ((stripCr l).drop (name.length + 1))))
      else extractHeaderLoop raw name (lineEnd raw start + 1) := by
  rw [extractHeaderLoop]
  split
  · simp_all
  · rename_i l' hl
    obtain rfl : l' = l := by simpa [hl] using h
    simp only [List.isEmpty_iff, matchHeader_eq]
    split
    · rfl
    · split <;> split <;> simp_all

theorem extractHeaderLoop_of_lt (h : raw.length < start) :
    extractHeaderLoop raw name start = .error .slice := by
  have he : slice raw start (lineEnd raw start) = .error .slice := by
    rw [lineEnd_of_le (Nat.le_of_lt h)]
    exact slice_of_lt h
  rw [extractHeaderLoop]
  split <;> simp_all

/-- The scan is the search through the lines that the newlines separate. -/
theorem extractHeaderLoop_eq (pre rest name : Bytes) :
    extractHeaderLoop (pre ++ rest) name pre.length = lookupHeader name (rest.splitOn newline) := by
  by_cases hm : newline ∈ rest
  · obtain ⟨line, tail, rfl, hn⟩ := List.eq_append_cons_of_mem hm
    have he : lineEnd (pre ++ (line ++ newline :: tail)) pre.length = pre.length + line.length :=
      lineEnd_append pre (newline :: tail) hn (by simp)
    have hs : slice (pre ++ (line ++ newline :: tail)) pre.length (pre.length + line.length) =
        .ok line := slice_append pre line (newline :: tail)
    have ih := extractHeaderLoop_eq (pre ++ line ++ [newline]) tail name
    rw [extractHeaderLoop_of_slice (he ▸ hs), he, List.splitOn_append_cons_self_of_not_mem hn,
      lookupHeader]
    simp only [List.length_append, List.length_singleton, List.append_assoc,
      List.singleton_append, ← Nat.add_assoc] at ih
    rw [ih]
  · have he : lineEnd (pre ++ (rest ++ [])) pre.length = pre.length + rest.length :=
      lineEnd_append pre [] hm (by simp)
    have hs := slice_append pre rest []
    rw [List.append_nil] at he hs
    rw [extractHeaderLoop_of_slice (he ▸ hs), he, List.splitOn_eq_singleton hm, lookupHeader,
      lookupHeader, extractHeaderLoop_of_lt (by simp)]
termination_by rest.length

theorem extractHeader_eq (raw name : Bytes) :
    extractHeader raw name = lookupHeader name (raw.splitOn newline).tail := by
  by_cases hm : newline ∈ raw
  · obtain ⟨line, tail, rfl, hn⟩ := List.eq_append_cons_of_mem hm
    have he : lineEnd (line ++ newline :: tail) 0 = line.length := by
      simpa using lineEnd_append [] (newline :: tail) hn (by simp)
    have hl := extractHeaderLoop_eq (line ++ [newline]) tail name
    simp only [List.length_append, List.length_singleton, List.append_assoc,
      List.singleton_append] at hl
    rw [extractHeader, he, hl, List.splitOn_append_cons_self_of_not_mem hn, List.tail_cons]
  · have he : lineEnd raw 0 = raw.length := by
      simpa using lineEnd_append [] [] hm (by simp)
    rw [extractHeader, he, extractHeaderLoop_of_lt (Nat.lt_succ_self _),
      List.splitOn_eq_singleton hm]
    rfl

theorem lookupHeader_returns {lines : List Bytes} : (∃ v, lookupHeader name lines = .ok v) ↔
    ∃ line ∈ lines, stripCr line = [] ∨ IsHeader (stripCr line) name := by
  induction lines with
  | nil => simp [lookupHeader]
  | cons line lines ih =>
    rw [lookupHeader]
    simp only [List.mem_cons, exists_eq_or_imp]
    split
    · simp [*]
    · split <;> simp [*]

/-- The lines of a header block after the request line, as newlines separate them. -/
def headerLines (raw : Bytes) : List Bytes := (raw.splitOn newline).tail

/-- A line at which the search for a header stops. -/
def HeaderStops (raw name : Bytes) : Prop :=
  ∃ line ∈ headerLines raw, stripCr line = [] ∨ IsHeader (stripCr line) name

/-- A line that is empty up to a carriage return. -/
def HasBlankLine (raw : Bytes) : Prop := ∃ line ∈ headerLines raw, stripCr line = []

theorem extractHeader_returns :
    (∃ v, extractHeader raw name = .ok v) ↔ HeaderStops raw name := by
  rw [extractHeader_eq]
  exact lookupHeader_returns

theorem HasBlankLine.headerStops (h : HasBlankLine raw) (name : Bytes) : HeaderStops raw name := by
  obtain ⟨line, hl, he⟩ := h
  exact ⟨line, hl, .inl he⟩

/-- A block that was read to its end has a blank line. -/
theorem hasBlankLine_of_complete (pre : Bytes) :
    HasBlankLine (pre ++ asBytes "\r\n\r\n") := by
  have hs : (pre ++ asBytes "\r\n\r\n").splitOn newline =
      (pre ++ ['\r'.toUInt8]).splitOn newline ++ [['\r'.toUInt8], []] := by
    rw [show pre ++ asBytes "\r\n\r\n" = pre ++ ['\r'.toUInt8] ++ newline :: ['\r'.toUInt8, newline]
      by simp; rfl, List.splitOn_append_cons_self]
    rfl
  refine ⟨[], ?_, rfl⟩
  rw [headerLines, hs, List.tail_append_of_ne_nil (List.splitOn_ne_nil _ _)]
  simp

theorem length_stripCr_le (line : Bytes) : (stripCr line).length ≤ line.length := by
  rw [stripCr, stripSuffix]
  split <;> simp

/-- No header has a name as long as the block, so the search for one stops at blank lines only. -/
theorem HeaderStops.hasBlankLine (h : HeaderStops raw name) (hn : raw.length ≤ name.length) :
    HasBlankLine raw := by
  obtain ⟨line, hl, he | he⟩ := h
  · exact ⟨line, hl, he⟩
  · have hle := Delimited.length_le_of_mem_splitOn (List.mem_of_mem_tail hl)
    have hcr := length_stripCr_le line
    have hlt := he.1
    omega

end PicoConduit
