import RichPresence.Protocol.Unmodelled

namespace RichPresence

open Value Serde Commands

/-- What is done to a command between its decoding and its last use. -/
inductive Pass
  | fix (now : Nat)
  | respond
  | fingerprint (now : Nat)

def Pass.apply (C : Codec) : Pass → ActivityCmd → ActivityCmd
  | .fix now, cmd => cmd.fix now
  | .respond, cmd => (setActivityResponse cmd).2
  | .fingerprint now, cmd => (activityFingerprint C now cmd).2

def passed (C : Codec) (passes : List Pass) (cmd : ActivityCmd) : ActivityCmd :=
  passes.foldl (fun cmd pass => pass.apply C cmd) cmd

/-- The reply to a command has a value at a path of its activity. -/
def Echoes (cmd : ActivityCmd) (path : List Step) (v : Value) : Prop :=
  ∃ answer, (setActivityResponse cmd).1 = some answer ∧ answer.loaded.follow (.key "data" :: path) = some v

/-- The text the cache keeps of a command has a value at a path of its activity. -/
def Caches (C : Codec) (now : Nat) (fingerprint : Option Bytes) (cmd : ActivityCmd) (path : List Step) (v : Value) :
    Prop :=
  ∃ entry payload, cachedActivity C now cmd fingerprint = some entry ∧ C.payloadJson payload = some entry.json ∧
    (payloadValue payload).loaded.follow (.key "activity" :: path) = some v

variable {C : Codec} {cmd : ActivityCmd} {a : Activity} {path : List Step} {v : Value}

namespace Activity

theorem extra_fix (now : Nat) (a : Activity) : (a.fix now).extra = a.extra := by
  have hbuttons (b : Activity) : b.fixButtons.extra = b.extra := by
    rw [fixButtons]
    split <;> rfl
  have hflags (b : Activity) : b.fixFlags.extra = b.extra := by
    rw [fixFlags]
    split <;> rfl
  rw [fix, hflags, hbuttons]
  rfl

end Activity

theorem extra_apply (C : Codec) (pass : Pass) (h : cmd.activity = some a) :
    ∃ b, (pass.apply C cmd).activity = some b ∧ b.extra = a.extra := by
  cases pass with
  | fix now =>
      refine ⟨a.fix now, ?_, Activity.extra_fix now a⟩
      rw [Pass.apply, ActivityCmd.fix, ActivityCmd.mapActivity_activity, h]
      rfl
  | respond =>
      refine ⟨{ a with applicationId := none }, ?_, rfl⟩
      rw [Pass.apply, setActivityResponse, ActivityCmd.mapActivity_activity, h]
      rfl
  | fingerprint now =>
      refine ⟨{ a.fix now with applicationId := cmd.applicationId }, ?_, Activity.extra_fix now a⟩
      rw [Pass.apply, activityFingerprint_activity, h]
      rfl

theorem extra_passed (C : Codec) (passes : List Pass) (h : cmd.activity = some a) :
    ∃ b, (passed C passes cmd).activity = some b ∧ b.extra = a.extra := by
  induction passes generalizing cmd a with
  | nil => exact ⟨a, h, rfl⟩
  | cons pass passes ih =>
      obtain ⟨b, hb, hextra⟩ := extra_apply C pass h
      obtain ⟨c, hc, hextra'⟩ := ih hb
      exact ⟨c, hc, hextra'.trans hextra⟩

theorem extra_serialized (now : Nat) (h : cmd.activity = some a) :
    ∃ b, serialized now cmd = some b ∧ b.extra = a.extra := by
  rw [serialized_eq, h]
  exact ⟨_, rfl, Activity.extra_fix now a⟩

theorem follow_data (name : String) (data nonce : Value) (evt : Option String) :
    (reply name data evt nonce).loaded.follow (.key "data" :: path) = data.loaded.follow path := by
  rw [reply]
  exact follow_member (by simp [occurrences])

theorem echoes_iff (h : cmd.activity = some a) :
    Echoes cmd path v ↔ ((activityValue { a with applicationId := none }).withMember "application_id"
      (orNull (cmd.applicationId.map fun id => text id.text))).loaded.follow path = some v := by
  obtain ⟨args, hargs, hact⟩ := Option.bind_eq_some_iff.mp h
  have hechoed : echoed cmd = some { a with applicationId := none } := by
    simp [echoed, setActivityResponse, h]
  rw [Echoes, setActivityResponse_echoed, hargs, hechoed]
  simp only [Option.map_some, Option.some.injEq, exists_eq_left', follow_data]
  rfl

theorem caches_of_follow (hC : C.Encodes) {now : Nat} (fingerprint : Option Bytes) (h : serialized now cmd = some a)
    (hfollow : (activityValue a).loaded.follow path = some v) : Caches C now fingerprint cmd path v := by
  obtain ⟨pid, hcached⟩ := cachedActivity_serialized (C := C) h fingerprint
  obtain ⟨json, hjson⟩ := Option.isSome_iff_exists.mp (hC.payloadJson ⟨some a, pid, some (Nat.repr cmd.pid)⟩)
  obtain ⟨msgpack, hmsgpack⟩ := Option.isSome_iff_exists.mp (hC.payloadMsgpack ⟨some a, pid, some (Nat.repr cmd.pid)⟩)
  refine ⟨⟨json, msgpack, false, fingerprint.getD [], none, cmd.pid⟩, ⟨some a, pid, some (Nat.repr cmd.pid)⟩, ?_,
    hjson, ?_⟩
  · rw [hcached]
    simp [hjson, hmsgpack]
  · rw [payloadValue]
    exact (follow_member (by simp [occurrences])).trans hfollow

theorem extra_decoded {members : List (String × Value)} (h : Activity.decode (.object members) = some a) :
    Sorted a.extra ∧ OrderedMembers a.extra ∧ (∀ m ∈ a.extra, m.1 ∉ Activity.keys) ∧
      ∀ key ∉ Activity.keys, a.extra.lookup key = (object members).loaded.get key := by
  have hextra := Activity.extra_of_decode h
  obtain ⟨hsorted, hordered⟩ :=
    ordered_loadedMembers (Activity.unread members) [] List.Pairwise.nil trivial
  rw [← hextra] at hsorted hordered
  refine ⟨hsorted, hordered, ?_, ?_⟩
  · rintro ⟨key, w⟩ hm
    have hlookup : a.extra.lookup key = some w := by
      rw [← Option.mem_toList, ← occurrences_of_sorted hsorted]
      exact mem_occurrences.mpr hm
    have hget : (object (Activity.unread members)).loaded.get key = some w := by
      rw [loaded, Value.get, ← hextra, hlookup]
    obtain ⟨u, hu, -⟩ := mem_of_get_loaded hget
    exact of_decide_eq_true (List.mem_filter.mp hu).2
  · intro key hkey
    have hocc : occurrences key (Activity.unread members) = occurrences key members := by
      rw [occurrences, occurrences, Activity.unread, List.filter_filter]
      congr 1
      refine List.filter_congr fun m _ => ?_
      by_cases hm : m.1 = key
      · simp [hm, hkey]
      · simp [hm]
    rw [hextra, lookup_loadedMembers, hocc, get_loaded, List.lookup_nil, Option.or_none]

theorem follow_unread {members : List (String × Value)} {b : Activity}
    (h : Activity.decode (.object members) = some a) (hb : b.extra = a.extra) {key : String}
    (hkey : key ∉ Activity.keys) (hv : (object members).loaded.follow (.key key :: path) = some v) :
    (activityValue b).loaded.follow (.key key :: path) = some v := by
  obtain ⟨hsorted, hordered, -, hlookup⟩ := extra_decoded h
  have hget : (activityValue b).loaded.get key = (object members).loaded.get key := by
    rw [Activity.get_activityValue_unread (hb ▸ hsorted) (hb ▸ hordered) hkey, hb, hlookup key hkey]
  rw [follow, child] at hv ⊢
  rwa [hget]

theorem echoes_of_follow (h : cmd.activity = some a) {key : String} (hkey : key ∉ Activity.keys)
    (hfollow : (activityValue { a with applicationId := none }).loaded.follow (.key key :: path) = some v) :
    Echoes cmd (.key key :: path) v := by
  have hne : "application_id" ≠ key := by
    rintro rfl
    exact hkey (by decide)
  rw [follow, child] at hfollow
  rw [echoes_iff h, follow, child, get_loaded_withMember hne, hfollow]

theorem mem_of_echoes_nested {members : List (String × Value)} {b : Activity} {n : String × List String} {k : String}
    (h : Activity.decode (.object members) = some a) (hcmd : cmd.activity = some b) (hb : b.extra = a.extra)
    (hn : n ∈ Activity.nested) (hechoes : Echoes cmd [.key n.1, .key k] v) : k ∈ n.2 := by
  obtain ⟨-, -, hne⟩ := Activity.nested_spec hn
  rw [echoes_iff hcmd, follow, child, get_loaded_withMember hne] at hechoes
  obtain ⟨u, hu, hechoes⟩ := Option.bind_eq_some_iff.mp hechoes
  obtain ⟨x, hx, -⟩ := Option.bind_eq_some_iff.mp hechoes
  obtain ⟨-, -, hfresh, -⟩ := extra_decoded h
  exact Activity.get_activityValue_nested hn (by rwa [hb]) hu hx

/-- The values at unmodelled paths all come back in the reply and in the cached
text exactly when such paths start at the top of the activity. -/
theorem unmodelled_kept_iff (hC : C.Encodes) {body : Value} {members : List (String × Value)}
    (hbody : ActivityCmd.decode body = some cmd) (htext : ActivityCmd.activityText body = some (.object members))
    (before after : List Pass) (now : Nat) (fingerprint : Option Bytes) :
    (∀ path v, Activity.unmodelled path = true → (object members).loaded.follow path = some v →
        Echoes (passed C before cmd) path v ∧ Caches C now fingerprint (passed C after cmd) path v) ↔
      Activity.NestedModelled (.object members) := by
  obtain ⟨a, ha, hdecode⟩ := ActivityCmd.activity_of_decode hbody htext
  obtain ⟨b, hb, hbextra⟩ := extra_passed C before ha
  obtain ⟨c, hc, hcextra⟩ := extra_passed C after ha
  constructor
  · intro hkept n hn v k w hv hw
    by_contra hk
    obtain ⟨hlookup, -, -⟩ := Activity.nested_spec hn
    have hlost : Activity.unmodelled [.key n.1, .key k] = true := by
      simp [Activity.unmodelled, hlookup, hk]
    have hfollow : (object members).loaded.follow [.key n.1, .key k] = some w := by
      rw [follow, child, hv, Option.bind_some, follow, child, hw]
      rfl
    obtain ⟨hechoes, -⟩ := hkept _ _ hlost hfollow
    exact hk (mem_of_echoes_nested hdecode hb hbextra hn hechoes)
  · intro hnested path v hpath hv
    obtain ⟨key, rest, rfl, hkey⟩ := hnested.top hpath hv
    constructor
    · exact echoes_of_follow hb hkey (follow_unread (b := { b with applicationId := none }) hdecode hbextra hkey hv)
    · obtain ⟨d, hd, hdextra⟩ := extra_serialized now hc
      exact caches_of_follow hC fingerprint hd (follow_unread hdecode (hdextra.trans hcextra) hkey hv)

/-- An activity with a key that is none of its fields and with the given assets. -/
def hadesText (assets : List (String × Value)) : List (String × Value) :=
  [("name", .string "Hades"), ("heat", .object [("level", unsigned 3)]), ("assets", .object assets)]

def setActivityText (assets : List (String × Value)) : Value :=
  .object [("cmd", .string "SET_ACTIVITY"), ("nonce", .string "1"),
    ("args", .object [("pid", unsigned 7), ("activity", .object (hadesText assets))])]

theorem nestedModelled_hades : Activity.NestedModelled (.object (hadesText [("large_image", .string "cover")])) := by
  intro n hn v k w hv hw
  obtain ⟨u, hu, rfl⟩ := mem_of_get_loaded hv
  obtain ⟨hn', -, -⟩ := Activity.nested_spec hn
  simp only [hadesText, List.mem_cons, Prod.mk.injEq, List.not_mem_nil, or_false] at hu
  rcases hu with ⟨hkey, -⟩ | ⟨hkey, -⟩ | ⟨hkey, rfl⟩
  · rw [hkey] at hn'
    cases hn'
  · rw [hkey] at hn'
    cases hn'
  · rw [hkey] at hn'
    obtain hn' : Assets.keys = n.2 := Option.some.inj hn'
    obtain ⟨x, hx, -⟩ := mem_of_get_loaded hw
    obtain ⟨rfl, -⟩ := Prod.mk.inj (List.mem_singleton.mp hx)
    rw [← hn']
    exact List.mem_cons_self

theorem unmodelled_kept_hades : ∃ cmd,
    ActivityCmd.decode (setActivityText [("large_image", .string "cover")]) = some cmd ∧
      Echoes (passed codec [.fix 1700000000] cmd) [.key "heat", .key "level"] (unsigned 3) ∧
      Caches codec 1700000002 none (passed codec [.fix 1700000000, .respond, .fingerprint 1700000001] cmd)
        [.key "heat", .key "level"] (unsigned 3) := by
  have hsome : (ActivityCmd.decode (setActivityText [("large_image", .string "cover")])).isSome = true := by
    decide +kernel
  obtain ⟨cmd, hcmd⟩ := Option.isSome_iff_exists.mp hsome
  exact ⟨cmd, hcmd, (unmodelled_kept_iff codec_encodes hcmd rfl [.fix 1700000000]
    [.fix 1700000000, .respond, .fingerprint 1700000001] 1700000002 none).mpr nestedModelled_hades
      [.key "heat", .key "level"] (unsigned 3) rfl rfl⟩

/-- The same kind of key inside the assets is gone from the reply and from the
cached text. -/
theorem assets_key_lost :
    let assets := [("large_image", Value.string "cover"), ("large_image_alt", .string "a cover")]
    let path := [Step.key "assets", .key "large_image_alt"]
    Activity.unmodelled path = true ∧
      ((object (hadesText assets)).loaded.follow path).bind Value.asStr = some "a cover" ∧
      ((ActivityCmd.decode (setActivityText assets)).bind fun cmd =>
        (setActivityResponse (passed codec [.fix 1700000000] cmd)).1.map fun answer =>
          (answer.loaded.follow (.key "data" :: path)).isSome) = some false ∧
      ((ActivityCmd.decode (setActivityText assets)).bind fun cmd =>
        (cachedActivity codec 1700000002 (passed codec [.fix 1700000000, .respond, .fingerprint 1700000001] cmd)
          none).map CachedActivity.json) =
        some ("\x7b\"activity\":\x7b\"name\":\"Hades\",\"type\":0,\"assets\":\x7b\"large_image\":\"cover\"\x7d," ++
          "\"heat\":\x7b\"level\":3\x7d\x7d,\"pid\":7,\"socketId\":\"7\"\x7d") := by
  decide +kernel

end RichPresence
