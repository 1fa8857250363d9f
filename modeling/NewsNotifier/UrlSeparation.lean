import NewsNotifier.UrlInvariance

namespace NewsNotifier

open QueryStrings UrlText

/-- The bytes of a field's name and value; a field without `=` has an empty value. -/
def octetField (field : List Char) : Option (List UInt8 × List UInt8) :=
  if field = [] then none
  else
    match splitFirst '=' field with
    | (name, none) => some (octets name, [])
    | (name, some value) => some (octets name, octets value)

def trackingOctets (lib : PyLib) (name : List UInt8) : Bool :=
  trackingParams.contains (lib.lower (String.ofList (Utf8.decode name)))

/-- The query fields but the tracking ones, percent-decoded. -/
def queryFields (lib : PyLib) (query : String) : List (List UInt8 × List UInt8) :=
  ((query.toList.splitOn '&').filterMap octetField).filter fun kv => !trackingOctets lib kv.1

/-- A field without a value, or whose bytes are no text in UTF-8 but for replacement characters. -/
def lossy (kv : List UInt8 × List UInt8) : Bool := kv.2.isEmpty || !legible kv.1 || !legible kv.2

def lossyFields (lib : PyLib) (query : String) : List (List UInt8 × List UInt8) :=
  (queryFields lib query).filter lossy

def toOctets (kv : String × String) : List UInt8 × List UInt8 := (Utf8.encode kv.1.toList, Utf8.encode kv.2.toList)

/-- Nothing of the parameter has been replaced. -/
def unreplaced (kv : String × String) : Bool :=
  !kv.1.toList.contains Utf8.replacement && !kv.2.toList.contains Utf8.replacement

section Fields

variable {lib : PyLib} {accepts : String → Bool} {url url' : String} {parts parts' : SplitResult}

/-- A field that loses nothing is read as the text of its bytes. -/
theorem octetField_kept (field : List Char) :
    (octetField field).filter (fun kv => !lossy kv && !trackingOctets lib kv.1) =
      (((parseField false field).map ofChars).filter fun kv =>
        unreplaced kv && !trackingParams.contains (lib.lower kv.1)).map toOctets := by
  unfold octetField parseField
  by_cases empty : field = []
  · simp [empty]
  rw [if_neg empty, if_neg empty]
  cases splitFirst '=' field with
  | mk name value =>
    cases value with
    | none => simp [lossy, Option.filter_some]
    | some value =>
      by_cases blank : value = []
      · simp [blank, lossy, octets, plusToSpace, unquoteToBytes, Option.filter_some]
      have filled : (octets value).isEmpty = false := by
        simpa [octets, plusToSpace, unquoteToBytes_eq_nil] using blank
      by_cases text : legible (octets name) = true ∧ legible (octets value) = true
      · obtain ⟨first, second⟩ := text
        have name_eq := octets_of_unquotePlus (legible_iff.mp first)
        have value_eq := octets_of_unquotePlus (legible_iff.mp second)
        have kept : unreplaced (ofChars (unquotePlus name, unquotePlus value)) = true := by
          simpa [unreplaced, ofChars] using And.intro (legible_iff.mp first) (legible_iff.mp second)
        have plain : lossy (octets name, octets value) = false := by simp [lossy, filled, first, second]
        have tracks : trackingOctets lib (octets name) =
            trackingParams.contains (lib.lower (ofChars (unquotePlus name, unquotePlus value)).1) := by
          rw [trackingOctets, ← unquotePlus_of_legible first]
          rfl
        have bytes : toOctets (ofChars (unquotePlus name, unquotePlus value)) = (octets name, octets value) := by
          simp [toOctets, ofChars, name_eq, value_eq]
        simp only [blank, false_and, if_false, Option.map_some, Option.filter_some, kept, plain, tracks]
        generalize trackingParams.contains _ = tracking
        cases tracking with
        | false => exact congrArg some bytes.symm
        | true => rfl
      · have lost : lossy (octets name, octets value) = true := by
          simp only [lossy, filled, Bool.false_or, Bool.or_eq_true, Bool.not_eq_true']
          by_cases first : legible (octets name) = true
          · exact .inr (by simpa [first] using text)
          · exact .inl (by simpa using first)
        have replaced : unreplaced (ofChars (unquotePlus name, unquotePlus value)) = false := by
          rw [legible_iff, legible_iff] at text
          simpa [unreplaced, ofChars, not_and_or] using text
        simp [blank, Option.filter_some, lost, replaced]

/-- The fields that lose nothing are those of the sorted parameters. -/
theorem kept_perm (query : String) : ((queryFields lib query).filter fun kv => !lossy kv).Perm
    (((params lib query.toList).filter unreplaced).map toOctets) := by
  have sorted := List.perm_insertionSort pairLe
    (((parseQsl false query.toList).map ofChars).filter fun kv => !trackingParams.contains (lib.lower kv.1))
  refine List.Perm.trans (List.Perm.of_eq ?_) ((sorted.symm.filter unreplaced).map toOctets)
  rw [queryFields, List.filter_filter, List.filter_filterMap, List.filter_filter, parseQsl, List.map_filterMap,
    List.filter_filterMap, List.map_filterMap]
  exact List.filterMap_congr fun field _ => octetField_kept field

theorem queryFields_perm (query : String) : (queryFields lib query).Perm
    (lossyFields lib query ++ ((params lib query.toList).filter unreplaced).map toOctets) := by
  have halves := (List.filter_append_perm lossy (queryFields lib query)).symm
  exact halves.trans ((kept_perm query).append_left _)

theorem canonical_injective (laws : lib.letters.Lawful) (h : IsHttpUrl (lib.withUrls accepts) url parts)
    (h' : IsHttpUrl (lib.withUrls accepts) url' parts') {normal : String}
    (first : normalizeUrl (lib.withUrls accepts) url = .ok normal)
    (second : normalizeUrl (lib.withUrls accepts) url' = .ok normal) :
    canonical lib (partsOf parts) = canonical lib (partsOf parts') := by
  have joins : ∀ {url parts}, IsHttpUrl (lib.withUrls accepts) url parts →
      normalizeUrl (lib.withUrls accepts) url = .ok normal →
        normal = String.ofList (unsplitUrl (canonical lib (partsOf parts))) := by
    intro url parts h same
    rw [h.normalize laws] at same
    split at same
    next => exact (Except.ok.inj same).symm
    next => cases same
  have joined : unsplitUrl (canonical lib (partsOf parts)) = unsplitUrl (canonical lib (partsOf parts')) := by
    simpa using congrArg String.toList ((joins h first).symm.trans (joins h' second))
  rw [← (canonical_absolute laws h.absolute).split_unsplit, joined]
  exact (canonical_absolute laws h'.absolute).split_unsplit

theorem canonical_path {p p' : Parts} (same : canonical lib p = canonical lib p') :
    UrlText.rstripSlash p.path = UrlText.rstripSlash p'.path := by
  have path : ∀ p : Parts, UrlText.rstripSlash (canonical lib p).path = UrlText.rstripSlash p.path := by
    intro p
    unfold canonical Parts.trim
    split
    next => exact List.rdropWhile_idempotent _ _
    next => rfl
  rw [← path p, same, path p']

end Fields

/-- Two URLs of one canonical form agree up to the case of scheme and host, the slashes at the end
of the path and the order of the fields, if and only if they have the same fields among those without a value
or of ill-formed bytes. -/
theorem url_separation (lib : PyLib) (laws : lib.letters.Lawful) (accepts : String → Bool) {url url' : String}
    {parts parts' : SplitResult} (h : IsHttpUrl (lib.withUrls accepts) url parts)
    (h' : IsHttpUrl (lib.withUrls accepts) url' parts') {normal : String}
    (first : normalizeUrl (lib.withUrls accepts) url = .ok normal)
    (second : normalizeUrl (lib.withUrls accepts) url' = .ok normal) :
    (lib.lower parts.scheme = lib.lower parts'.scheme ∧ lib.lower parts.netloc = lib.lower parts'.netloc ∧
      rstripSlash parts.path = rstripSlash parts'.path ∧
      (queryFields lib parts.query).Perm (queryFields lib parts'.query)) ↔
    (lossyFields lib parts.query).Perm (lossyFields lib parts'.query) := by
  have eq := canonical_injective laws h h' first second
  have scheme : lib.lower parts.scheme = lib.lower parts'.scheme := by
    have chars := ((canonical_front (partsOf parts)).1.symm.trans (congrArg Parts.scheme eq)).trans
      (canonical_front (partsOf parts')).1
    exact String.toList_inj.mp (by simpa [lowerChars, partsOf] using chars)
  have netloc : lib.lower parts.netloc = lib.lower parts'.netloc := by
    have chars := ((canonical_front (partsOf parts)).2.1.symm.trans (congrArg Parts.netloc eq)).trans
      (canonical_front (partsOf parts')).2.1
    exact String.toList_inj.mp (by simpa [lowerChars, partsOf] using chars)
  have path : rstripSlash parts.path = rstripSlash parts'.path := congrArg String.ofList (canonical_path eq)
  have fields : params lib parts.query.toList = params lib parts'.query.toList := canonical_params eq
  constructor
  · rintro ⟨_, _, _, perm⟩
    exact perm.filter _
  · intro lost
    refine ⟨scheme, netloc, path, ?_⟩
    have both := lost.append_right (((params lib parts.query.toList).filter unreplaced).map toOctets)
    exact (queryFields_perm parts.query).trans (both.trans (fields ▸ (queryFields_perm parts'.query).symm))

theorem url_separation_sample :
    (queryFields greekLib "id=%D0%B5&b=2").Perm (queryFields greekLib "b=2&ref=x&id=%d0%b5") := by
  have h : IsHttpUrl (greekLib.withUrls fun _ => true) "https://e.com/a?id=%D0%B5&b=2"
      ⟨"https", "e.com", "/a", "id=%D0%B5&b=2", ""⟩ := ⟨by decide +kernel, .inr rfl, by decide⟩
  have h' : IsHttpUrl (greekLib.withUrls fun _ => true) "https://E.com/a?b=2&ref=x&id=%d0%b5"
      ⟨"https", "E.com", "/a", "b=2&ref=x&id=%d0%b5", ""⟩ := ⟨by decide +kernel, .inr rfl, by decide⟩
  have first : normalizeUrl (greekLib.withUrls fun _ => true) "https://e.com/a?id=%D0%B5&b=2" =
      .ok "https://e.com/a?b=2&id=%D0%B5" := by decide +kernel
  have second : normalizeUrl (greekLib.withUrls fun _ => true) "https://E.com/a?b=2&ref=x&id=%d0%b5" =
      .ok "https://e.com/a?b=2&id=%D0%B5" := by decide +kernel
  have lost : (lossyFields greekLib "id=%D0%B5&b=2").Perm (lossyFields greekLib "b=2&ref=x&id=%d0%b5") := by
    decide +kernel
  exact ((url_separation greekLib greekTable_lawful (fun _ => true) h h' first second).mpr lost).2.2.2

/-- Two articles that differ in a field without a value, or in an escape that is no UTF-8, have one canonical
URL. -/
theorem blank_fields_dropped :
    IsHttpUrl (greekLib.withUrls fun _ => true) "https://e.com/a?1" ⟨"https", "e.com", "/a", "1", ""⟩ ∧
    IsHttpUrl (greekLib.withUrls fun _ => true) "https://e.com/a?2" ⟨"https", "e.com", "/a", "2", ""⟩ ∧
    normalizeUrl (greekLib.withUrls fun _ => true) "https://e.com/a?1" = .ok "https://e.com/a" ∧
    normalizeUrl (greekLib.withUrls fun _ => true) "https://e.com/a?2" = .ok "https://e.com/a" ∧
    ¬(queryFields greekLib "1").Perm (queryFields greekLib "2") ∧
    IsHttpUrl (greekLib.withUrls fun _ => true) "https://e.com/a?id=%E9" ⟨"https", "e.com", "/a", "id=%E9", ""⟩ ∧
    IsHttpUrl (greekLib.withUrls fun _ => true) "https://e.com/a?id=%E8" ⟨"https", "e.com", "/a", "id=%E8", ""⟩ ∧
    normalizeUrl (greekLib.withUrls fun _ => true) "https://e.com/a?id=%E9" = .ok "https://e.com/a?id=%EF%BF%BD" ∧
    normalizeUrl (greekLib.withUrls fun _ => true) "https://e.com/a?id=%E8" = .ok "https://e.com/a?id=%EF%BF%BD" ∧
    ¬(queryFields greekLib "id=%E9").Perm (queryFields greekLib "id=%E8") := by
  have http : ∀ {url parts}, (greekLib.withUrls fun _ => true).urlsplit url = some parts → parts.scheme = "https" →
      parts.netloc ≠ "" → IsHttpUrl (greekLib.withUrls fun _ => true) url parts :=
    fun split scheme host => ⟨split, .inr scheme, host⟩
  refine ⟨http ?_ rfl (by decide), http ?_ rfl (by decide), ?_, ?_, ?_, http ?_ rfl (by decide),
    http ?_ rfl (by decide), ?_, ?_, ?_⟩ <;> decide +kernel

end NewsNotifier
