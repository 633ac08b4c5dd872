import Columnar.Proofs.Burst
import Columnar.Proofs.HeaderCodec
import Columnar.Proofs.RoundTrip

/-! What becomes of a file when a few bytes of its header, its catalog or its footer change. Header
and catalog are each covered by a checksum, the header's own included in what is looked at, so a
change of up to four bytes in one place is noticed before the bytes are given a meaning. A change
of the stored checksum of the catalog, or of the magic at the end, is noticed whatever its size. -/

namespace Columnar

theorem extract_split (xs : Array UInt8) {low middle high : Nat} (hlow : low ≤ middle)
    (hhigh : middle ≤ high) : (xs.extract low high).toList =
      (xs.extract low middle).toList ++ (xs.extract middle high).toList := by
  rw [← Array.toList_append, Array.extract_append_extract, Nat.min_eq_left hlow,
    Nat.max_eq_right hhigh]

/-- The two differ, and only in bytes from `start` on, before `stop`. -/
structure ChangedWithin (data data' : Array UInt8) (start stop : Nat) : Prop where
  size_eq : data'.size = data.size
  ne : data' ≠ data
  agree : ∀ place, place < start ∨ stop ≤ place → data'[place]? = data[place]?

namespace ChangedWithin

variable {data data' : Array UInt8} {start stop low high : Nat}

theorem extract_eq (h : ChangedWithin data data' start stop) (hapart : high ≤ start ∨ stop ≤ low) :
    data'.extract low high = data.extract low high := by
  apply Array.ext_getElem?
  intro k
  rw [Array.getElem?_extract, Array.getElem?_extract, h.size_eq]
  split
  · exact h.agree _ (by omega)
  · rfl

theorem extract_ne (h : ChangedWithin data data' start stop) (hlow : low ≤ start)
    (hhigh : stop ≤ high) : data'.extract low high ≠ data.extract low high := by
  intro hsame
  apply h.ne
  apply Array.ext_getElem?
  intro place
  by_cases hout : place < start ∨ stop ≤ place
  · exact h.agree place hout
  · have hin : low ≤ place ∧ place < high := by omega
    rw [← Values.extract_getElem?_sub data hin.1 hin.2, ← hsame,
      Values.extract_getElem?_sub data' hin.1 hin.2]

theorem exists_words (h : ChangedWithin data data' start stop) (hlow : low ≤ start)
    (hhigh : stop ≤ high) : ∃ before word word' after : Bytes,
      (data.extract low high).toList = before ++ word ++ after ∧
      (data'.extract low high).toList = before ++ word' ++ after ∧
      word.length = word'.length ∧ word.length ≤ stop - start ∧ word ≠ word' := by
  have hlt : start ≤ stop := by
    by_contra hge
    exact h.ne (Array.ext_getElem? fun place => h.agree place (by omega))
  have hparts : ∀ xs : Array UInt8, (xs.extract low high).toList =
      (xs.extract low start).toList ++ (xs.extract start stop).toList ++
        (xs.extract stop high).toList := by
    intro xs
    rw [extract_split xs (Nat.le_trans hlow hlt) hhigh, extract_split xs hlow hlt]
  refine ⟨(data.extract low start).toList, (data.extract start stop).toList,
    (data'.extract start stop).toList, (data.extract stop high).toList, hparts data, ?_, ?_, ?_, ?_⟩
  · rw [hparts data', h.extract_eq (Or.inl (Nat.le_refl start)),
      h.extract_eq (Or.inr (Nat.le_refl stop))]
  · rw [Array.length_toList, Array.length_toList, Array.size_extract, Array.size_extract, h.size_eq]
  · rw [Array.length_toList, Array.size_extract]
    omega
  · intro hword
    exact h.extract_ne (Nat.le_refl start) (Nat.le_refl stop) (Array.toList_inj.1 hword.symm)

theorem run_ne (h : ChangedWithin data data' start stop) (hlow : low ≤ start)
    (hhigh : stop ≤ high) (hshort : stop ≤ start + 4) (crc : UInt32) :
    Checksum.run crc (data'.extract low high).toList ≠
      Checksum.run crc (data.extract low high).toList := by
  obtain ⟨before, word, word', after, hword, hword', hlen, hle, hne⟩ := h.exists_words hlow hhigh
  rw [hword, hword']
  exact (Checksum.run_ne hlen (by omega) hne crc).symm

theorem crc32_ne (h : ChangedWithin data data' start stop) (hlow : low ≤ start)
    (hhigh : stop ≤ high) (hshort : stop ≤ start + 4) :
    Checksum.crc32 (data'.extract low high).toList ≠
      Checksum.crc32 (data.extract low high).toList := by
  intro hsame
  exact h.run_ne hlow hhigh hshort _ ((UInt32.xor_left_inj _).1 hsame)

theorem set {place : Nat} {b : UInt8} (hb : data[place]?.any fun a => a ≠ b) :
    ChangedWithin data (data.setIfInBounds place b) place (place + 1) where
  size_eq := Array.size_setIfInBounds
  ne := by
    intro hsame
    obtain ⟨a, ha, hne⟩ := (Option.any_eq_true _ _).1 hb
    have hlt := (Array.getElem?_eq_some_iff.1 ha).1
    have hset := Array.getElem?_setIfInBounds_self_of_lt (a := b) hlt
    rw [hsame, ha] at hset
    exact of_decide_eq_true hne (Option.some.inj hset)
  agree k hk := Array.getElem?_setIfInBounds_ne (by omega)

end ChangedWithin

namespace FileHeader

theorem sealed_iff {header : FileHeader} :
    header.Sealed ↔ Checksum.run 0xFFFFFFFF header.encode = Checksum.residue :=
  Checksum.run_eq_residue_iff.symm

theorem validate_of_run_ne {bs : Bytes} (hlen : bs.length = size)
    (h : Checksum.run 0xFFFFFFFF bs ≠ Checksum.residue) : validate bs = .error .checksum := by
  obtain ⟨header, rest, rfl⟩ := exists_encode_append hlen.ge
  have hrest : rest = [] := by
    rw [List.length_append, length_encode, Nat.add_eq_left] at hlen
    exact List.eq_nil_of_length_eq_zero hlen
  rw [hrest, List.append_nil] at h
  rw [validate_encode, if_pos (mt sealed_iff.1 h)]

theorem run_of_validate {bs : Bytes} {header : FileHeader} {n : Nat} (hlen : bs.length = size)
    (h : validate bs = .ok (header, n)) : Checksum.run 0xFFFFFFFF bs = Checksum.residue := by
  by_contra hrun
  rw [validate_of_run_ne hlen hrun] at h
  cases h

end FileHeader

theorem Footer.decode?_parts {offset length checksum rest : Bytes} (ho : offset.length = 8)
    (hl : length.length = 4) (hc : checksum.length = 4) :
    decode? (offset ++ length ++ checksum ++ rest) =
      if rest = magic then
        some ⟨Bytes.toUInt64 offset, Bytes.toUInt32 length, Bytes.toUInt32 checksum⟩
      else none := by
  have hdrop : (offset ++ length ++ checksum ++ rest).drop 16 = rest :=
    List.drop_left' (by simp [ho, hl, hc])
  by_cases hrest : rest = magic
  · have hsize : (offset ++ length ++ checksum ++ rest).length = size := by
      simp [ho, hl, hc, hrest, size]
    rw [decode?, if_pos ⟨hsize, hdrop.trans hrest⟩, if_pos hrest]
    simp [List.drop_append, ho, hl, hc, List.drop_of_length_le]
  · rw [decode?, if_neg (fun h => hrest (hdrop.symm.trans h.2)), if_neg hrest]

namespace TableFile

variable {data : Array UInt8}

/-- The last twenty-four bytes as a footer, whatever they end with. -/
def lastFooter (data : Array UInt8) : Footer :=
  ⟨Bytes.toUInt64 (data.extract (data.size - 24) (data.size - 16)).toList,
    Bytes.toUInt32 (data.extract (data.size - 16) (data.size - 12)).toList,
    Bytes.toUInt32 (data.extract (data.size - 12) (data.size - 8)).toList⟩

theorem footer_eq (hsize : Footer.size ≤ data.size) :
    Footer.decode? (data.extract (data.size - Footer.size) data.size).toList =
      if (data.extract (data.size - 8) data.size).toList = Footer.magic then
        some (lastFooter data)
      else none := by
  have h24 : Footer.size = 24 := rfl
  rw [h24] at hsize ⊢
  have hlen : ∀ far near, far ≤ 24 → near ≤ far →
      (data.extract (data.size - far) (data.size - near)).toList.length = far - near := by
    intro far near hfar hnear
    rw [Array.length_toList, Array.size_extract]
    omega
  have h8 : data.size - 8 ≤ data.size := Nat.sub_le _ _
  rw [extract_split data (show data.size - 24 ≤ data.size - 8 by omega) h8,
    extract_split data (show data.size - 24 ≤ data.size - 12 by omega)
      (show data.size - 12 ≤ data.size - 8 by omega),
    extract_split data (show data.size - 24 ≤ data.size - 16 by omega)
      (show data.size - 16 ≤ data.size - 12 by omega)]
  apply Footer.decode?_parts
  · exact hlen 24 16 (by decide) (by decide)
  · exact hlen 16 12 (by decide) (by decide)
  · exact hlen 12 8 (by decide) (by decide)

theorem footer_eq_some_iff {footer : Footer} (hsize : Footer.size ≤ data.size) :
    Footer.decode? (data.extract (data.size - Footer.size) data.size).toList = some footer ↔
      (data.extract (data.size - 8) data.size).toList = Footer.magic ∧
        footer = lastFooter data := by
  rw [footer_eq hsize]
  split
  · rename_i hmagic
    rw [Option.some.injEq, eq_comm, and_iff_right hmagic]
  · rename_i hmagic
    simp only [hmagic, reduceCtorEq, false_and]

variable {header : FileHeader} {n : Nat}

theorem parse_of_header {fault : HeaderFault} (hsize : minSize ≤ data.size)
    (hv : FileHeader.validate (data.extract 0 FileHeader.size).toList = .error fault) :
    parse data = .error (.header fault) := by
  rw [parse, if_neg (Nat.not_lt.2 hsize), hv]
  rfl

theorem parse_of_missingFooter (hsize : minSize ≤ data.size)
    (hv : FileHeader.validate (data.extract 0 FileHeader.size).toList = .ok (header, n))
    (hf : Footer.decode? (data.extract (data.size - Footer.size) data.size).toList = none) :
    parse data = .error .missingFooter := by
  rw [parse, if_neg (Nat.not_lt.2 hsize), hv, hf]
  rfl

theorem parse_of_catalogChecksum {footer : Footer} {bytes : Bytes} (hsize : minSize ≤ data.size)
    (hv : FileHeader.validate (data.extract 0 FileHeader.size).toList = .ok (header, n))
    (hf : Footer.decode? (data.extract (data.size - Footer.size) data.size).toList = some footer)
    (hb : catalogBytes data footer = .ok bytes)
    (hc : Checksum.crc32 bytes ≠ footer.catalogChecksum) :
    parse data = .error .catalogChecksum := by
  have hread : readCatalog data footer = .error .catalogChecksum := by
    rw [readCatalog, hb]
    simp [bind, Except.bind, hc, throw, throwThe, MonadExceptOf.throw]
  rw [parse, if_neg (Nat.not_lt.2 hsize), hv, hf]
  simp [bind, Except.bind, hread, Except.mapError]

theorem ofContents_of_parse {fault : FileFault} (h : parse data = .error fault) (path : String) :
    ofContents path (.ok data) = .error (unavailable path fault) := by
  rw [ofContents, h]

variable {data' : Array UInt8} {catalog : Catalog} {start stop : Nat}

theorem parse_of_header_changed (hparse : parse data = .ok (header, catalog))
    (hchange : ChangedWithin data data' start stop) (hshort : stop ≤ start + 4)
    (hstop : stop ≤ FileHeader.size) : parse data' = .error (.header .checksum) := by
  obtain ⟨hsize, ⟨n, hheader⟩, -⟩ := parse_eq_ok.1 hparse
  have hsize' : minSize ≤ data'.size := by rwa [hchange.size_eq]
  have hlen : ∀ xs : Array UInt8, minSize ≤ xs.size →
      (xs.extract 0 FileHeader.size).toList.length = FileHeader.size := by
    intro xs hxs
    rw [Array.length_toList, Array.size_extract, Nat.sub_zero]
    exact Nat.min_eq_left (Nat.le_trans (Nat.le_add_right _ _) hxs)
  apply parse_of_header hsize'
  apply FileHeader.validate_of_run_ne (hlen data' hsize')
  rw [← FileHeader.run_of_validate (hlen data hsize) hheader]
  exact hchange.run_ne (Nat.zero_le start) hstop hshort _

theorem validate_of_changed (hchange : ChangedWithin data data' start stop)
    (hstart : FileHeader.size ≤ start)
    (hheader : FileHeader.validate (data.extract 0 FileHeader.size).toList = .ok (header, n)) :
    FileHeader.validate (data'.extract 0 FileHeader.size).toList = .ok (header, n) := by
  rwa [hchange.extract_eq (Or.inl hstart)]

theorem parse_of_catalog_changed {footer : Footer} (hparse : parse data = .ok (header, catalog))
    (hfooter : Footer.decode? (data.extract (data.size - Footer.size) data.size).toList =
      some footer)
    (hchange : ChangedWithin data data' start stop) (hshort : stop ≤ start + 4)
    (hstart : footer.catalogOffset.toNat ≤ start)
    (hstop : stop ≤ footer.catalogOffset.toNat + footer.catalogLength.toNat) :
    parse data' = .error .catalogChecksum := by
  obtain ⟨hsize, ⟨n, hheader⟩, footer', hfooter', hcatalog⟩ := parse_eq_ok.1 hparse
  rw [hfooter] at hfooter'
  obtain rfl := Option.some.inj hfooter'
  obtain ⟨bytes, hbytes, hcrc, -, -⟩ := readCatalog_eq_ok.1 hcatalog
  obtain ⟨⟨haddress, hbehind, hbefore⟩, rfl⟩ := catalogBytes_eq_ok.1 hbytes
  have hend : stop ≤ data.size - Footer.size := Nat.le_trans hstop hbefore
  apply parse_of_catalogChecksum (by rwa [hchange.size_eq])
    (validate_of_changed hchange (Nat.le_trans hbehind hstart) hheader)
  · rwa [hchange.size_eq, hchange.extract_eq (Or.inr hend)]
  · exact catalogBytes_eq_ok.2 ⟨⟨haddress, hbehind, by rwa [hchange.size_eq]⟩, rfl⟩
  · rw [← hcrc]
    exact hchange.crc32_ne hstart hstop hshort

theorem lastFooter_of_checksum_changed (hchange : ChangedWithin data data' start stop)
    (hstart : data.size - 12 ≤ start) (hstop : stop ≤ data.size - 8)
    (hsize : Footer.size ≤ data.size) :
    (lastFooter data').catalogOffset = (lastFooter data).catalogOffset ∧
      (lastFooter data').catalogLength = (lastFooter data).catalogLength ∧
      (lastFooter data').catalogChecksum ≠ (lastFooter data).catalogChecksum := by
  have h24 : Footer.size = 24 := rfl
  have hlen : ∀ xs : Array UInt8, xs.size = data.size →
      (xs.extract (data.size - 12) (data.size - 8)).toList.length = 4 := by
    intro xs hxs
    rw [Array.length_toList, Array.size_extract]
    omega
  simp only [lastFooter, hchange.size_eq]
  refine ⟨?_, ?_, ?_⟩
  · rw [hchange.extract_eq (Or.inl (by omega))]
  · rw [hchange.extract_eq (Or.inl (by omega))]
  · intro hsame
    apply hchange.extract_ne hstart hstop
    rw [← Array.toList_inj, ← Bytes.ofUInt32_toUInt32 (hlen data' hchange.size_eq), hsame,
      Bytes.ofUInt32_toUInt32 (hlen data rfl)]

theorem parse_of_checksum_changed (hparse : parse data = .ok (header, catalog))
    (hchange : ChangedWithin data data' start stop) (hstart : data.size - 12 ≤ start)
    (hstop : stop ≤ data.size - 8) : parse data' = .error .catalogChecksum := by
  obtain ⟨hsize, ⟨n, hheader⟩, footer, hfooter, hcatalog⟩ := parse_eq_ok.1 hparse
  obtain ⟨bytes, hbytes, hcrc, -, -⟩ := readCatalog_eq_ok.1 hcatalog
  have hmin : 44 ≤ data.size := hsize
  have hmin' : 44 ≤ data'.size := by rwa [hchange.size_eq]
  have h20 : FileHeader.size = 20 := rfl
  have h24 : Footer.size = 24 := rfl
  obtain ⟨hmagic, rfl⟩ := (footer_eq_some_iff (by omega)).1 hfooter
  obtain ⟨hoffset, hlength, hchecksum⟩ :=
    lastFooter_of_checksum_changed hchange hstart hstop (by omega)
  have hmagic' : (data'.extract (data'.size - 8) data'.size).toList = Footer.magic := by
    rwa [hchange.size_eq, hchange.extract_eq (Or.inr hstop)]
  have hfooter' := (footer_eq_some_iff (by omega)).2 ⟨hmagic', rfl⟩
  obtain ⟨⟨haddress, hbehind, hbefore⟩, hextract⟩ := catalogBytes_eq_ok.1 hbytes
  have hbytes' : catalogBytes data' (lastFooter data') = .ok bytes := by
    apply catalogBytes_eq_ok.2
    rw [hoffset, hlength, hchange.size_eq, hchange.extract_eq (Or.inl (by omega))]
    exact ⟨⟨haddress, hbehind, hbefore⟩, hextract⟩
  apply parse_of_catalogChecksum hmin' (validate_of_changed hchange (by omega) hheader) hfooter'
    hbytes'
  rw [hcrc]
  exact hchecksum.symm

theorem parse_of_magic_changed (hparse : parse data = .ok (header, catalog))
    (hchange : ChangedWithin data data' start stop) (hstart : data.size - 8 ≤ start)
    (hstop : stop ≤ data.size) : parse data' = .error .missingFooter := by
  obtain ⟨hsize, ⟨n, hheader⟩, footer, hfooter, -⟩ := parse_eq_ok.1 hparse
  have hmin : 44 ≤ data.size := hsize
  have hmin' : 44 ≤ data'.size := by rwa [hchange.size_eq]
  have h20 : FileHeader.size = 20 := rfl
  have h24 : Footer.size = 24 := rfl
  have hmagic := ((footer_eq_some_iff (by omega)).1 hfooter).1
  apply parse_of_missingFooter hmin' (validate_of_changed hchange (by omega) hheader)
  have hmagic' : (data'.extract (data'.size - 8) data'.size).toList ≠ Footer.magic := by
    rw [hchange.size_eq, ← hmagic]
    intro hsame
    exact hchange.extract_ne hstart hstop (Array.toList_inj.1 hsame)
  rw [footer_eq (by omega), if_neg hmagic']

/-- A change of up to four bytes in the header or in the catalog of a file that opens, and any
change of the stored checksum of the catalog or of the last magic, makes the file unavailable. -/
theorem detects_small_changes (path : String) (data data' : Array UInt8) (f : TableFile)
    (ho : ofContents path (.ok data) = .ok f) (start stop : Nat)
    (hchange : ChangedWithin data data' start stop) :
    ∃ footer, Footer.decode? (data.extract (data.size - Footer.size) data.size).toList =
        some footer ∧
      (stop ≤ start + 4 → stop ≤ FileHeader.size →
        ofContents path (.ok data') = .error (unavailable path (.header .checksum))) ∧
      (stop ≤ start + 4 → footer.catalogOffset.toNat ≤ start →
        stop ≤ footer.catalogOffset.toNat + footer.catalogLength.toNat →
        ofContents path (.ok data') = .error (unavailable path .catalogChecksum)) ∧
      (data.size - 12 ≤ start → stop ≤ data.size - 8 →
        ofContents path (.ok data') = .error (unavailable path .catalogChecksum)) ∧
      (data.size - 8 ≤ start → stop ≤ data.size →
        ofContents path (.ok data') = .error (unavailable path .missingFooter)) := by
  obtain ⟨hdata, hparse, -⟩ := ofContents_eq_ok.1 ho
  obtain rfl := Except.ok.inj hdata
  obtain ⟨-, -, footer, hfooter, -⟩ := parse_eq_ok.1 hparse
  refine ⟨footer, hfooter, ?_, ?_, ?_, ?_⟩
  · intro hshort hstop
    apply ofContents_of_parse
    exact parse_of_header_changed hparse hchange hshort hstop
  · intro hshort hstart hstop
    apply ofContents_of_parse
    exact parse_of_catalog_changed hparse hfooter hchange hshort hstart hstop
  · intro hstart hstop
    apply ofContents_of_parse
    exact parse_of_checksum_changed hparse hchange hstart hstop
  · intro hstart hstop
    apply ofContents_of_parse
    exact parse_of_magic_changed hparse hchange hstart hstop

theorem uneven_detects_small_changes :
    ofContents "uneven.tbl" (.ok (uneven.finish.2.setIfInBounds 227 97)) =
        .error (unavailable "uneven.tbl" .catalogChecksum) ∧
      ofContents "uneven.tbl" (.ok (uneven.finish.2.setIfInBounds 8 2)) =
        .error (unavailable "uneven.tbl" (.header .checksum)) := by
  have hget : ∀ place : Nat, uneven.finish.2[place]? = (uneven.written.toList ++
      uneven.catalog.encode ++ (uneven.footer uneven.catalog.encode).encode)[place]? := by
    intro place
    rw [uneven.finish_bytes, ← Array.getElem?_toList, Array.toList_append, Array.toList_append]
  have hletter : ChangedWithin uneven.finish.2 (uneven.finish.2.setIfInBounds 227 97) 227 228 :=
    .set (by rw [hget]; decide +kernel)
  have hversion : ChangedWithin uneven.finish.2 (uneven.finish.2.setIfInBounds 8 2) 8 9 :=
    .set (by rw [hget]; decide +kernel)
  obtain ⟨footer, hfooter, -, hcatalog, -⟩ :=
    detects_small_changes "uneven.tbl" uneven.finish.2 _ _ uneven_opens 227 228 hletter
  obtain ⟨-, -, hheader, -⟩ :=
    detects_small_changes "uneven.tbl" uneven.finish.2 _ _ uneven_opens 8 9 hversion
  rw [uneven.finish_footer, List.toList_toArray, Footer.decode?_encode] at hfooter
  obtain rfl := Option.some.inj hfooter
  refine ⟨hcatalog (by decide) (by decide) (by decide +kernel), hheader (by decide) (by decide)⟩

end TableFile
end Columnar
