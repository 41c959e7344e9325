import PicoConduit.HtmlElements
import PicoConduit.Requests

namespace PicoConduit
open Heapless Html Utf8
set_option autoImplicit true

/-- A scan result, as far as the form needs it. -/
structure BssInfo where
  ssidLen : UInt8
  ssid : Vector UInt8 32

/-- The turn of the scan loop for one result. -/
def collectSsid (ssids : HVec (HString 32) 16) (bss : BssInfo) : HVec (HString 32) 16 :=
  if bss.ssidLen > 0 then
    let len := bss.ssidLen.toNat
    match fromUtf8 (bss.ssid.toList.take (min len 32)) with
    | some s =>
      let hs := ownedCopy s
      if ssids.toList.any (· = hs) then ssids else (ssids.push hs).getD ssids
    | none => ssids
  else ssids

def collectSsids (scan : List BssInfo) : HVec (HString 32) 16 := scan.foldl collectSsid .empty

def scanStatus : String :=
  "HTTP/1.0 200 OK\r\nContent-Type: text/html\r\nConnection: close\r\n\r\n"

def formStart : String :=
  "<!DOCTYPE html><html><head><meta charset=\"utf-8\">" ++
    "<title>pico-setup</title></head><body><h1>Wi-Fi Setup</h1>" ++
    "<form method=\"POST\" action=\"/connect\">" ++
    "<label>Network:<br><select name=\"ssid\">"

def hiddenOption : String := "<option value=\"\">Hidden / other network</option>"

def formRest : String :=
  "</select></label><br>" ++
    "<label>Manual SSID (leave blank to use selection above):<br>" ++
    "<input type=\"text\" name=\"ssid_manual\"></label><br>" ++
    "<label>Password:<br><input type=\"password\" name=\"password\"></label><br>" ++
    "<hr><h2>MQTT (optional)</h2>" ++
    "<label>Broker Host:<br><input type=\"text\" name=\"mqtt_host\" " ++
    "placeholder=\"e.g. 192.168.1.100\"></label><br>" ++
    "<label>Broker Port:<br><input type=\"number\" name=\"mqtt_port\" " ++
    "value=\"1883\" min=\"1\" max=\"65535\"></label><br>" ++
    "<input type=\"submit\" value=\"Connect\">" ++
    "</form></body></html>"

/-- What is written for one network. -/
def optionWrites (ssid : HString 32) : List Bytes :=
  [asBytes "<option value=\"", asBytes ssid.toString, asBytes "\">", asBytes ssid.toString,
    asBytes "</option>"]

/-- What `serve_scan_form` writes, in order, for the results of a scan. -/
def serveScanForm (scan : List BssInfo) : List Bytes :=
  [asBytes scanStatus, asBytes formStart] ++ (collectSsids scan).toList.flatMap optionWrites ++
    [asBytes (hiddenOption ++ formRest)]

/-- The name of a network that has one. -/
def BssInfo.name (bss : BssInfo) : Option String :=
  if bss.ssidLen > 0 then fromUtf8 (bss.ssid.toList.take (min bss.ssidLen.toNat 32)) else none

/-- The networks that the form is to list. -/
def listed (scan : List BssInfo) : List String := ((scan.filterMap BssInfo.name).eraseDups).take 16

def optionTokens (ssid : String) : List PageToken :=
  elementTokens "option".toList "value".toList ssid.toList

def hiddenTokens : List PageToken :=
  .startTag "option".toList [("value".toList, [])] false ::
    ("Hidden / other network".toList.map .char ++ [.endTag "option".toList])

/-- The list that stands between the fixed parts of the page is read as an option for each network
and the option for hidden ones. -/
def ListsExactly (E : Entities) (scan : List BssInfo) : Prop :=
  ∃ list : String, (serveScanForm scan).flatten =
      asBytes scanStatus ++ (asBytes formStart ++ (asBytes list ++ asBytes formRest)) ∧
    readPage E (list ++ formRest).toList =
      (listed scan).flatMap optionTokens ++ (hiddenTokens ++ readPage E formRest.toList)

theorem BssInfo.name_fits {bss : BssInfo} (h : bss.name = some s) : s.utf8ByteSize ≤ 32 := by
  rw [BssInfo.name] at h
  split at h
  · rw [← length_asBytes, ← fromUtf8_eq_some.1 h, List.length_take]
    omega
  · cases h

theorem collectSsid_eq (ssids : HVec (HString 32) 16) (bss : BssInfo) :
    collectSsid ssids bss = (bss.name.map ownedCopy).elim ssids ssids.pushNew := by
  rw [collectSsid, BssInfo.name]
  split
  · simp only
    cases fromUtf8 (bss.ssid.toList.take (min bss.ssidLen.toNat 32)) with
    | none => rfl
    | some s => rfl
  · rfl

theorem eraseDups_map [DecidableEq α] [DecidableEq β] {f : α → β} (hf : Function.Injective f)
    (xs : List α) : (xs.map f).eraseDups = xs.eraseDups.map f := by
  induction hn : xs.length using Nat.strongRecOn generalizing xs with
  | ind n ih =>
    subst hn
    cases xs with
    | nil => rfl
    | cons x xs =>
      have hfilter : (xs.map f).filter (fun y => !y == f x) =
          (xs.filter fun y => !y == x).map f := by
        rw [List.filter_map]
        congr 1
        apply List.filter_congr
        intro y _
        simp [hf.eq_iff]
      have hlt := Nat.lt_succ_of_le (List.length_filter_le (fun y => !y == x) xs)
      rw [List.map_cons, List.eraseDups_cons, List.eraseDups_cons, hfilter, List.map_cons,
        ih _ hlt _ rfl]

/-- The loop keeps the names that the form is to list. -/
theorem collectSsids_listed (scan : List BssInfo) :
    (collectSsids scan).toList.map HString.toString = listed scan := by
  have hfold : collectSsids scan = ((scan.filterMap BssInfo.name).map ownedCopy).foldl
      HVec.pushNew .empty := by
    rw [collectSsids, List.map_filterMap, List.foldl_filterMap]
    congr 1
    funext ssids bss
    rw [collectSsid_eq]
    cases bss.name with
    | none => rfl
    | some s => rfl
  have hnames : ((scan.filterMap BssInfo.name).map fun s => (ownedCopy s : HString 32)).map
      HString.toString = scan.filterMap BssInfo.name := by
    rw [List.map_map]
    refine (List.map_congr_left fun s hs => ?_).trans (List.map_id _)
    obtain ⟨bss, -, hname⟩ := List.mem_filterMap.1 hs
    exact (HString.getD_pushStr_iff s).2 (BssInfo.name_fits hname)
  rw [hfold, HVec.foldl_pushNew, List.map_take,
    ← eraseDups_map (fun _ _ => HString.ext_toString), hnames, listed]

def optionElement (ssid : String) : List Char :=
  element "option".toList "value".toList ssid.toList

theorem optionWrites_flatten (ssid : HString 32) :
    (optionWrites ssid).flatten = (optionElement ssid.toString).flatMap String.utf8EncodeChar := by
  have hopen : asBytes "<option value=\"" =
      (opening "option".toList "value".toList).flatMap String.utf8EncodeChar := by decide
  have hmiddle : asBytes "\">" = [quote, '>'].flatMap String.utf8EncodeChar := by decide
  have hclose : asBytes "</option>" =
      ('<' :: closing "option".toList).flatMap String.utf8EncodeChar := by decide
  have helement : optionElement ssid.toString = opening "option".toList "value".toList ++
      (ssid.toString.toList ++ ([quote, '>'] ++ (ssid.toString.toList ++
        '<' :: closing "option".toList))) := rfl
  rw [helement, optionWrites, hopen, hmiddle, hclose, asBytes_eq_flatMap]
  simp only [List.flatten_cons, List.flatten_nil, List.append_nil, List.flatMap_append]

/-- The list of options for some networks. -/
def optionList (names : List String) : String :=
  String.ofList (names.flatMap optionElement ++ hiddenOption.toList)

theorem flatten_serveScanForm (scan : List BssInfo) : (serveScanForm scan).flatten =
    asBytes scanStatus ++ (asBytes formStart ++ (asBytes (optionList (listed scan)) ++
      asBytes formRest)) := by
  have hoptions : ((collectSsids scan).toList.flatMap optionWrites).flatten =
      ((listed scan).flatMap optionElement).flatMap String.utf8EncodeChar := by
    rw [← collectSsids_listed, List.flatMap_map, List.flatMap_assoc, ← List.flatMap_id,
      List.flatMap_assoc]
    simp only [List.flatMap_id, optionWrites_flatten]
  have hend : asBytes (hiddenOption ++ formRest) =
      hiddenOption.toList.flatMap String.utf8EncodeChar ++ asBytes formRest := by
    rw [asBytes_eq_flatMap, String.toList_append, List.flatMap_append,
      ← asBytes_eq_flatMap formRest]
  simp only [serveScanForm, List.flatten_append, List.flatten_cons, List.flatten_nil,
    List.append_nil, hoptions, hend, optionList, asBytes_ofList, List.flatMap_append,
    List.append_assoc]

theorem option_isName : IsName "option".toList := ⟨by decide, List.all_eq_true.1 (by decide)⟩

theorem value_isName : IsName "value".toList := ⟨by decide, List.all_eq_true.1 (by decide)⟩

theorem read_hidden (E : Entities) (rest : List Char) :
    readPage E (hiddenOption.toList ++ rest) = hiddenTokens ++ readPage E rest := by
  have hreturn : Html.carriageReturn ∉ hiddenOption.toList := by decide
  have hparts : hiddenOption.toList = opening "option".toList "value".toList ++
      ([] ++ quote :: '>' :: ("Hidden / other network".toList ++
        '<' :: closing "option".toList)) := by decide
  have hplain : PlainText E "Hidden / other network".toList :=
    plainText_of_free (by decide) (by decide)
  have hnoquote : quote ∉ ([] : List Char) := List.not_mem_nil
  have hvalue := value_closed (E := E) option_isName value_isName hnoquote
    ("Hidden / other network".toList ++ '<' :: (closing "option".toList ++ newlines false rest))
  rw [tokens_plain hplain, tokens_endTag option_isName, decodeValue] at hvalue
  rw [readPage, newlines_plain hreturn, hparts]
  simp only [List.append_assoc, List.cons_append]
  rw [hvalue]
  simp only [hiddenTokens, readPage, List.append_assoc, List.cons_append, List.nil_append]

/-- The bytes of the page fix the list, so that it is about the list that is written. -/
theorem listsExactly_read (E : Entities) (scan : List BssInfo) : ListsExactly E scan ↔
    readPage E ((listed scan).flatMap optionElement ++
      (hiddenOption.toList ++ formRest.toList)) =
      (listed scan).flatMap optionTokens ++
        readPage E (hiddenOption.toList ++ formRest.toList) := by
  have hlist : (optionList (listed scan) ++ formRest).toList =
      (listed scan).flatMap optionElement ++ (hiddenOption.toList ++ formRest.toList) := by
    rw [String.toList_append, optionList, String.toList_ofList, List.append_assoc]
  rw [read_hidden, ← hlist]
  constructor
  · rintro ⟨list, hbytes, htokens⟩
    rw [flatten_serveScanForm] at hbytes
    have hsame := List.append_cancel_left (List.append_cancel_left hbytes)
    rwa [← asBytes_injective (List.append_cancel_right hsame)] at htokens
  · exact fun htokens => ⟨optionList (listed scan), flatten_serveScanForm scan, htokens⟩

theorem read_options_iff (E : Entities) (names : List String) (rest : List Char) :
    readPage E (names.flatMap optionElement ++ rest) =
      names.flatMap optionTokens ++ readPage E rest ↔ ∀ ssid ∈ names, Inert E ssid.toList := by
  have hread := read_elements_iff (E := E) option_isName value_isName (names.map String.toList) rest
  rwa [List.flatMap_map, List.flatMap_map, List.forall_mem_map] at hread

/-- The form lists exactly the networks that were found when the names of those that it lists are
inert, and then only. -/
theorem options_exact_iff (E : Entities) (scan : List BssInfo) :
    ListsExactly E scan ↔ ∀ ssid ∈ listed scan, Inert E ssid.toList :=
  (listsExactly_read E scan).trans (read_options_iff E (listed scan) _)

def commonTable : List (List Char × List Char) :=
  [("amp;".toList, ['&']), ("amp".toList, ['&']), ("lt;".toList, ['<']), ("lt".toList, ['<']),
    ("gt;".toList, ['>']), ("gt".toList, ['>']), ("quot;".toList, [quote]),
    ("quot".toList, [quote])]

theorem commonTable_name_length : ∀ entity ∈ commonTable, 2 ≤ entity.1.length := by decide

theorem commonTable_name_chars :
    ∀ entity ∈ commonTable, ∀ c ∈ entity.1, c.isAlphanum ∨ c = ';' := by
  have hall : commonTable.all (·.1.all fun c => c.isAlphanum || c == ';') = true := by decide
  intro entity hmem c hc
  simpa using List.all_eq_true.1 (List.all_eq_true.1 hall entity hmem) c hc

theorem commonTable_expansion_length : ∀ entity ∈ commonTable, entity.2.length ≤ 2 := by decide

def commonEntities : Entities where
  table := commonTable
  name_length := commonTable_name_length
  name_chars := commonTable_name_chars
  expansion_length := commonTable_expansion_length

def headingBytes : Bytes := asBytes "\"><h1>" ++ List.replicate 26 0

theorem headingBytes_size : headingBytes.toArray.size = 32 := by decide

def headingNetwork : BssInfo := ⟨6, ⟨headingBytes.toArray, headingBytes_size⟩⟩

theorem heading_injected : ¬ ListsExactly commonEntities [headingNetwork] := by
  have hname : headingNetwork.name = some "\"><h1>" := by
    rw [BssInfo.name, if_pos (by decide)]
    exact fromUtf8_eq_some.2 (by decide)
  have hlisted : "\"><h1>" ∈ listed [headingNetwork] := by
    rw [listed, List.filterMap_cons, hname]
    decide
  intro h
  have hinert := (read_options_iff _ _ _).1 ((listsExactly_read _ _).1 h) _ hlisted
  exact hinert.quote (by decide)

end PicoConduit
