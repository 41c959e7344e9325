import PicoConduit.Http

namespace PicoConduit
open Checked Utf8
set_option autoImplicit true

def carriageReturn : UInt8 := '\r'.toUInt8

/-- A header of a request, with a name and a value that can be told apart when it is written. -/
structure Header where
  name : Bytes
  value : Bytes
  name_ne : name ≠ []
  name_plain : ':'.toUInt8 ∉ name ∧ carriageReturn ∉ name ∧ newline ∉ name
  value_ne : value ≠ []
  value_plain : carriageReturn ∉ value ∧ newline ∉ value

def Header.line (h : Header) : Bytes := h.name ++ asBytes ": " ++ h.value

/-- The headers of a request, each on its line, and the empty line behind them. -/
def renderHeaders (headers : List Header) : Bytes :=
  headers.flatMap (fun h => h.line ++ asBytes "\r\n") ++ asBytes "\r\n"

def renderRequest (requestLine : Bytes) (headers : List Header) : Bytes :=
  requestLine ++ asBytes "\r\n" ++ renderHeaders headers

/-- The value of the first header that has a name in some case. -/
def headerNamed (name : Bytes) (headers : List Header) : Option Bytes :=
  (headers.find? fun h => eqIgnoreAsciiCase h.name name).map Header.value

theorem stripCr_concat (line : Bytes) : stripCr (line ++ [carriageReturn]) = line := by
  have hs : (['\r'.toUInt8] : Bytes).isSuffixOf (line ++ [carriageReturn]) = true :=
    List.isSuffixOf_iff_suffix.2 (List.suffix_append _ _)
  rw [stripCr, stripSuffix, if_pos hs, Option.getD_some, List.length_append]
  exact List.take_left

theorem crlf_eq : asBytes "\r\n" = [carriageReturn, newline] := rfl

theorem splitOn_line {line : Bytes} (h : newline ∉ line) (rest : Bytes) :
    (line ++ asBytes "\r\n" ++ rest).splitOn newline =
      (line ++ [carriageReturn]) :: rest.splitOn newline := by
  have hcr : newline ∉ line ++ [carriageReturn] := by
    rw [List.mem_append, not_or]
    exact ⟨h, by decide⟩
  have he : line ++ asBytes "\r\n" ++ rest = (line ++ [carriageReturn]) ++ newline :: rest := by
    rw [crlf_eq, List.append_assoc, List.append_assoc]
    rfl
  rw [he, List.splitOn_append_cons_self_of_not_mem hcr]

theorem Header.line_plain (h : Header) : newline ∉ h.line := by
  rw [Header.line, List.mem_append, List.mem_append, not_or, not_or]
  exact ⟨⟨h.name_plain.2.2, by decide⟩, h.value_plain.2⟩

theorem renderHeaders_cons (h : Header) (hs : List Header) :
    renderHeaders (h :: hs) = h.line ++ asBytes "\r\n" ++ renderHeaders hs := by
  rw [renderHeaders, List.flatMap_cons, List.append_assoc, renderHeaders]

theorem toAsciiLower_colon : toAsciiLower b = ':'.toUInt8 ↔ b = ':'.toUInt8 := by
  simp only [toAsciiLower]
  split
  · rename_i h
    have hA : 'A'.toUInt8.toNat = 65 := rfl
    have hZ : 'Z'.toUInt8.toNat = 90 := rfl
    have hcolon : ':'.toUInt8.toNat = 58 := rfl
    have h32 : (32 : UInt8).toNat = 32 := rfl
    rw [UInt8.le_iff_toNat_le, UInt8.le_iff_toNat_le, hA, hZ] at h
    rw [← UInt8.toNat_inj, ← UInt8.toNat_inj, UInt8.toNat_add, hcolon, h32]
    omega
  · exact Iff.rfl

theorem colon_mem_iff {xs ys : Bytes} (h : eqIgnoreAsciiCase xs ys = true) :
    ':'.toUInt8 ∈ xs ↔ ':'.toUInt8 ∈ ys := by
  have hlower (zs : Bytes) : ':'.toUInt8 ∈ zs.map toAsciiLower ↔ ':'.toUInt8 ∈ zs := by
    simp only [List.mem_map, toAsciiLower_colon, exists_eq_right]
  rw [eqIgnoreAsciiCase, beq_iff_eq] at h
  rw [← hlower xs, h, hlower ys]

theorem length_of_eqIgnoreAsciiCase {xs ys : Bytes} (h : eqIgnoreAsciiCase xs ys = true) :
    xs.length = ys.length := by
  rw [eqIgnoreAsciiCase, beq_iff_eq] at h
  have hlen := congrArg List.length h
  rwa [List.length_map, List.length_map] at hlen

theorem Header.line_eq (h : Header) : h.line = h.name ++ ':'.toUInt8 :: ' '.toUInt8 :: h.value := by
  rw [Header.line, List.append_assoc]
  rfl

/-- The line of a header has the names that its name is, in whatever case, and no others. -/
theorem Header.isHeader_iff (h : Header) {key : Bytes} (hkey : ':'.toUInt8 ∉ key) :
    IsHeader h.line key ↔ eqIgnoreAsciiCase h.name key = true := by
  rw [IsHeader, h.line_eq]
  constructor
  · intro hx
    obtain ⟨-, hcolon, heq⟩ := hx
    rcases Nat.lt_trichotomy key.length h.name.length with hlt | hlen | hgt
    · rw [List.getElem?_append_left hlt] at hcolon
      exact absurd (List.mem_of_getElem? hcolon) h.name_plain.1
    · rwa [hlen, List.take_left] at heq
    · refine absurd ((colon_mem_iff heq).1 ?_) hkey
      obtain ⟨n, hn⟩ := Nat.exists_eq_add_of_lt hgt
      rw [hn, Nat.add_assoc, List.take_length_add_append, List.take_succ_cons]
      exact List.mem_append_right _ List.mem_cons_self
  · intro heq
    have hlen := length_of_eqIgnoreAsciiCase heq
    rw [← hlen, List.take_left]
    refine ⟨?_, by simp, heq⟩
    have hvalue := List.length_pos_iff.2 h.value_ne
    rw [List.length_append, List.length_cons, List.length_cons]
    omega

theorem Header.value_eq (h : Header) :
    headerValue (h.line.drop (h.name.length + 1)) = h.value := by
  rw [h.line_eq, List.drop_length_add_append]
  rfl

theorem Header.line_ne (h : Header) : h.line ≠ [] := by
  rw [h.line_eq]
  exact List.append_ne_nil_of_right_ne_nil _ (List.cons_ne_nil _ _)

theorem lookupHeader_rendered (headers : List Header) {key : Bytes} (hkey : ':'.toUInt8 ∉ key) :
    lookupHeader key ((renderHeaders headers).splitOn newline) = .ok (headerNamed key headers) := by
  induction headers with
  | nil => rfl
  | cons h hs ih =>
    rw [renderHeaders_cons, splitOn_line h.line_plain, lookupHeader, stripCr_concat,
      if_neg h.line_ne, headerNamed]
    cases heq : eqIgnoreAsciiCase h.name key with
    | true =>
      rw [if_pos ((h.isHeader_iff hkey).2 heq), ← length_of_eqIgnoreAsciiCase heq, h.value_eq]
      simp only [List.find?_cons, heq, Option.map_some]
    | false =>
      have hne : ¬ IsHeader h.line key := fun hx => by
        rw [(h.isHeader_iff hkey).1 hx] at heq
        cases heq
      rw [if_neg hne, ih, headerNamed]
      simp only [List.find?_cons, heq]

/-- Looking up a name gives the value of the first header that has it, and nothing if there is
none. -/
theorem header_lookup (requestLine : Bytes) (headers : List Header) (key : Bytes)
    (hline : newline ∉ requestLine) (hkey : ':'.toUInt8 ∉ key) :
    extractHeader (renderRequest requestLine headers) key = .ok (headerNamed key headers) := by
  rw [extractHeader_eq, renderRequest, splitOn_line hline, List.tail_cons,
    lookupHeader_rendered headers hkey]

def hostHeader : Header where
  name := asBytes "Host"
  value := asBytes "192.168.4.1"
  name_ne := by decide
  name_plain := by decide
  value_ne := by decide
  value_plain := by decide

def lengthHeader : Header where
  name := asBytes "content-length"
  value := asBytes "12"
  name_ne := by decide
  name_plain := by decide
  value_ne := by decide
  value_plain := by decide

theorem length_looked_up :
    extractHeader (renderRequest (asBytes "POST /connect HTTP/1.1") [hostHeader, lengthHeader])
      (asBytes "Content-Length") = .ok (some (asBytes "12")) ∧
    extractHeader (renderRequest (asBytes "POST /connect HTTP/1.1") [hostHeader, lengthHeader])
      (asBytes "Content") = .ok none := by
  have hline : newline ∉ asBytes "POST /connect HTTP/1.1" := by decide
  have h := header_lookup _ [hostHeader, lengthHeader] (asBytes "Content-Length") hline (by decide)
  have h' := header_lookup _ [hostHeader, lengthHeader] (asBytes "Content") hline (by decide)
  exact ⟨h, h'⟩

end PicoConduit
