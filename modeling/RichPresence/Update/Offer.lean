import RichPresence.Update.Boot

namespace RichPresence.Update

variable {V : Type} {C : Crates V} {server : Server}

theorem selectAsset_name {release : ReleaseInfo V} {name : String} {asset : Asset}
    (h : selectAsset release name = some asset) : asset.name = name := by
  rw [selectAsset] at h
  simpa using List.find?_some h

theorem elim_eq_ok {ε α : Type} {o : Option α} {err : ε} {a : α}
    (h : o.elim (.error err) .ok = (.ok a : Except ε α)) : o = some a := by
  cases o with
  | none => exact nomatch h
  | some b => exact congrArg some (Except.ok.inj h)

theorem elim_bind_eq_ok {ε α β : Type} {o : Option α} {err : ε} {f : α → Except ε β} {b : β}
    (h : (o.elim (.error err) .ok >>= f) = .ok b) : ∃ a, o = some a ∧ f a = .ok b := by
  cases o with
  | none => exact nomatch h
  | some a => exact ⟨a, rfl, h⟩

theorem expectedDigest_ok {D : Downloads} {update : Available V} {digest : String}
    (h : expectedDigest C D update = .ok digest) :
    ∃ url sigUrl manifest sig sigText text, update.checksumsUrl = some url ∧ update.checksumsSigUrl = some sigUrl ∧
      D.manifest url = some manifest ∧ D.signature sigUrl = some sig ∧
      String.fromUTF8? ⟨sig.toArray⟩ = some sigText ∧ C.verifySignature manifest sigText = true ∧
      String.fromUTF8? ⟨manifest.toArray⟩ = some text ∧ listedDigest text update.assetName = some digest := by
  rw [expectedDigest] at h
  obtain ⟨url, hurl, h⟩ := elim_bind_eq_ok h
  obtain ⟨sigUrl, hsigUrl, h⟩ := elim_bind_eq_ok h
  obtain ⟨manifest, hmanifest, h⟩ := elim_bind_eq_ok h
  obtain ⟨sig, hsig, h⟩ := elim_bind_eq_ok h
  obtain ⟨sigText, hsigText, h⟩ := elim_bind_eq_ok h
  split at h
  next hverified =>
    obtain ⟨text, htext, h⟩ := elim_bind_eq_ok h
    exact ⟨url, sigUrl, manifest, sig, sigText, text, hurl, hsigUrl, hmanifest, hsig, hsigText, hverified, htext,
      elim_eq_ok h⟩
  next => exact nomatch h

variable [LE V] [DecidableLE V]

theorem check_available {body : Option Value} {update : Available V} (h : check C body = .ok (.available update)) :
    ∃ triple json release asset, C.targetTriple = some triple ∧ body = some json ∧
      parseRelease C json = some release ∧ ¬release.version ≤ C.currentVersion ∧
      selectAsset release (assetName triple) = some asset ∧ update = {
        current := C.currentVersion
        latest := release.version
        tag := release.tag
        assetName := asset.name
        assetUrl := asset.url
        checksumsUrl := (selectAsset release "SHA256SUMS.txt").map Asset.url
        checksumsSigUrl := (selectAsset release "SHA256SUMS.txt.minisig").map Asset.url } := by
  rw [check] at h
  split at h
  · exact nomatch h
  next triple htriple =>
    obtain ⟨json, hjson, h⟩ := elim_bind_eq_ok h
    obtain ⟨release, hrelease, h⟩ := elim_bind_eq_ok h
    split at h
    · exact nomatch h
    next hnewer =>
      split at h
      · exact nomatch h
      next asset hasset =>
        injection Except.ok.inj h with hupdate
        exact ⟨triple, json, release, asset, htriple, hjson, hrelease, hnewer, hasset, hupdate.symm⟩

/-- What the server sends is an update for this build: its tag is newer than the running
version, and a manifest that verifies lists the binary. -/
inductive Offers (C : Crates V) (server : Server) : V → Bytes → Prop
  | mk {triple sigText text : String} {json : Value} {release : ReleaseInfo V} {asset sums minisig : Asset}
      {manifest sig body : Bytes}
      (htarget : C.targetTriple = some triple) (hjson : server.release = some json)
      (hrelease : parseRelease C json = some release) (hnewer : ¬release.version ≤ C.currentVersion)
      (hasset : selectAsset release (assetName triple) = some asset)
      (hsums : selectAsset release "SHA256SUMS.txt" = some sums)
      (hminisig : selectAsset release "SHA256SUMS.txt.minisig" = some minisig)
      (hmanifest : server.downloads.manifest sums.url = some manifest)
      (hsig : server.downloads.signature minisig.url = some sig)
      (hsigText : String.fromUTF8? ⟨sig.toArray⟩ = some sigText)
      (hverified : C.verifySignature manifest sigText = true)
      (htext : String.fromUTF8? ⟨manifest.toArray⟩ = some text)
      (hlisted : listedDigest text (assetName triple) = some (C.sha256Hex body))
      (hbody : server.downloads.binary asset.url = some body) : Offers C server release.version body

omit [DecidableLE V] in
theorem Offers.newer {version : V} {body : Bytes} (h : Offers C server version body) :
    ¬version ≤ C.currentVersion := by
  cases h with
  | mk _ _ _ hnewer => exact hnewer

theorem offers_iff {version : V} {body : Bytes} :
    Offers C server version body ↔ ∃ update, check C server.release = .ok (.available update) ∧
      update.latest = version ∧ expectedDigest C server.downloads update = .ok (C.sha256Hex body) ∧
      server.downloads.binary update.assetUrl = some body := by
  constructor
  · intro h
    cases h with
    | @mk triple sigText text json release asset sums minisig manifest sig body htarget hjson hrelease hnewer hasset
        hsums hminisig hmanifest hsig hsigText hverified htext hlisted hbody =>
      refine ⟨⟨C.currentVersion, release.version, release.tag, asset.name, asset.url, some sums.url,
        some minisig.url⟩, ?_, rfl, ?_, hbody⟩
      · simp only [check, htarget, hjson, Option.elim, bind, Except.bind, hrelease, hnewer, if_false, hasset, hsums,
          hminisig, Option.map_some, pure, Except.pure]
      · simp only [expectedDigest, Option.elim, bind, Except.bind, hmanifest, hsig, hsigText, hverified, htext,
          selectAsset_name hasset, hlisted, if_true]
  · rintro ⟨update, hcheck, rfl, hdigest, hbody⟩
    obtain ⟨triple, json, release, asset, htarget, hjson, hrelease, hnewer, hasset, rfl⟩ := check_available hcheck
    obtain ⟨url, sigUrl, manifest, sig, sigText, text, hurl, hsigUrl, hmanifest, hsig, hsigText, hverified, htext,
      hlisted⟩ := expectedDigest_ok hdigest
    obtain ⟨sums, hsums, rfl⟩ := Option.map_eq_some_iff.1 hurl
    obtain ⟨minisig, hminisig, rfl⟩ := Option.map_eq_some_iff.1 hsigUrl
    dsimp only at hlisted hbody
    rw [selectAsset_name hasset] at hlisted
    exact .mk htarget hjson hrelease hnewer hasset hsums hminisig hmanifest hsig hsigText hverified htext hlisted
      hbody

end RichPresence.Update
