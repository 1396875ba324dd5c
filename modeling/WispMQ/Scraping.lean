import WispMQ.Status
import WispMQ.Lib.Exposition
/-!
# What a scrape reads

`to_prometheus` writes the series one after the other, and the version as the label of one more (metrics.rs:490). A scraper
that reads the text gets the statistics of one snapshot back, each under its name and with its kind (`scrape_exact`).
-/

namespace WispMQ.Admin
open WispMQ.Configuration

/-- The statistic as a scraper sees it. -/
def Series.family (s : Series) : Exposition.Family where
  name := s.name.toList
  help := s.help.toList
  kind := match s.kind with
    | .counter => "counter".toList
    | .gauge => "gauge".toList
  samples := [⟨[], s.value⟩]

/-- `mqtt_build_info`. -/
def buildInfo (version : String) : Exposition.Family where
  name := "mqtt_build_info".toList
  help := "Broker build information.".toList
  kind := "gauge".toList
  samples := [⟨[("version".toList, version.toList)], 1⟩]

theorem toString_text (s : String) : toString s = s := rfl

namespace Snapshot

def families (s : Snapshot) : List Exposition.Family := s.series.map Series.family ++ [buildInfo s.version]

theorem render_eq (s : Series) : s.render = "# HELP " ++ s.name ++ " " ++ s.help ++ "\n# TYPE " ++ s.name ++ " " ++
    String.ofList s.family.kind ++ "\n" ++ s.name ++ " " ++ toString s.value ++ "\n" := by
  obtain ⟨name, kind, help, value⟩ := s
  cases kind with
  | counter =>
    delta Series.render
    dsimp only [toString_text, Series.family]
    rw [String.ofList_toList]
  | gauge =>
    delta Series.render
    dsimp only [toString_text, Series.family]
    rw [String.ofList_toList]

theorem lines_family (s : Series) : s.family.lines =
    [ "# HELP ".toList ++ s.name.toList ++ ' ' :: s.help.toList,
      "# TYPE ".toList ++ s.name.toList ++ ' ' :: s.family.kind,
      s.name.toList ++ ' ' :: Nat.toDigits 10 s.value ] := by
  simp only [Exposition.Family.lines, Series.family, List.map_cons, List.map_nil]
  rw [Exposition.Sample.line_plain]

theorem toList_render (s : Series) : s.render.toList = s.family.lines.flatMap (· ++ ['\n']) := by
  have htype : "\n# TYPE ".toList = '\n' :: "# TYPE ".toList := by decide
  have hend : "\n".toList = ['\n'] := by decide
  have hblank : " ".toList = [' '] := by decide
  rw [render_eq, lines_family]
  simp only [String.toList_append, String.toList_ofList, Nat.toString_eq_ofList_toDigits, htype, hend, hblank, List.flatMap_cons,
    List.flatMap_nil, List.append_assoc, List.cons_append, List.nil_append]

theorem lines_buildInfo (version : String) : (buildInfo version).lines =
    [ "# HELP ".toList ++ "mqtt_build_info".toList ++ ' ' :: "Broker build information.".toList,
      "# TYPE ".toList ++ "mqtt_build_info".toList ++ ' ' :: "gauge".toList,
      "mqtt_build_info".toList ++ '\x7b' :: ("version".toList ++ "=\"".toList ++ version.toList ++ "\"".toList ++ ['\x7d']) ++
        ' ' :: Nat.toDigits 10 1 ] := by
  delta buildInfo Exposition.Family.lines
  rw [List.map_cons, List.map_nil, Exposition.Sample.line_labels, Exposition.writeLabels, Exposition.writeLabel]

theorem toList_buildInfo (version : String) :
    ("# HELP mqtt_build_info Broker build information.\n# TYPE mqtt_build_info gauge\n" ++
      s!"mqtt_build_info\x7bversion=\"{version}\"\x7d 1\n").toList =
      (buildInfo version).lines.flatMap (· ++ ['\n']) := by
  have hhead : "# HELP mqtt_build_info Broker build information.\n# TYPE mqtt_build_info gauge\n".toList =
      ("# HELP ".toList ++ "mqtt_build_info".toList ++ ' ' :: "Broker build information.".toList ++ ['\n']) ++
        ("# TYPE ".toList ++ "mqtt_build_info".toList ++ ' ' :: "gauge".toList ++ ['\n']) := by decide
  have hopen : "mqtt_build_info\x7bversion=\"".toList =
      "mqtt_build_info".toList ++ '\x7b' :: ("version".toList ++ "=\"".toList) := by
    decide
  have hclose : "\"\x7d 1\n".toList = "\"".toList ++ '\x7d' :: (' ' :: Nat.toDigits 10 1) ++ ['\n'] := by decide
  rw [lines_buildInfo]
  dsimp only [toString_text]
  simp only [String.toList_append, hhead, hopen, hclose, List.flatMap_cons, List.flatMap_nil, List.append_assoc, List.cons_append,
    List.nil_append, List.append_nil]

/-- The text is the families in writing. -/
theorem toList_toPrometheus (s : Snapshot) : s.toPrometheus.toList = Exposition.write s.families := by
  have hseries : (String.join (s.series.map Series.render)).toList =
      ((s.series.map Series.family).flatMap Exposition.Family.lines).flatMap (· ++ ['\n']) := by
    rw [String.toList_join, List.flatMap_map, List.flatMap_map, List.flatMap_assoc]
    exact List.flatMap_congr fun x _ => toList_render x
  delta toPrometheus
  rw [String.append_assoc, String.toList_append, hseries, toList_buildInfo, Exposition.write, families, List.flatMap_append,
    List.flatMap_append, List.flatMap_singleton]

/-! ## The text is well formed -/

/-- What holds of the bytes of a character, which are ASCII, holds of the character. -/
theorem char_of_bytes {p : Char → Bool} {c : Char}
    (h : ∀ b ∈ String.utf8EncodeChar c, (b.toNat < 128 && p (Char.ofNat b.toNat)) = true) : p c = true := by
  have hvalid : c.val.toNat < 0xd800 ∨ 0xdfff < c.val.toNat ∧ c.val.toNat < 0x110000 := c.valid
  have hback : Char.ofNat c.val.toNat = c := Char.ofNat_toNat c
  simp only [Bool.and_eq_true, decide_eq_true_eq] at h
  unfold String.utf8EncodeChar at h
  generalize c.val.toNat = v at hvalid hback h
  dsimp only at h
  split at h
  · have hv := (h _ (List.mem_singleton_self _)).2
    have ha : (UInt8.ofNat v).toNat = v := by
      rw [UInt8.toNat_ofNat']
      omega
    rwa [ha, hback] at hv
  -- the first byte of a longer sequence is not ASCII
  split at h
  · have hfirst := (h _ (List.mem_cons_self ..)).1
    rw [UInt8.toNat_ofNat'] at hfirst
    omega
  split at h
  · have hfirst := (h _ (List.mem_cons_self ..)).1
    rw [UInt8.toNat_ofNat'] at hfirst
    omega
  · have hfirst := (h _ (List.mem_cons_self ..)).1
    rw [UInt8.toNat_ofNat'] at hfirst
    omega

/-- The bytes of a text are quicker to look at than its characters. -/
theorem all_of_bytes {p : Char → Bool} {s : String}
    (h : s.toByteArray.data.toList.all (fun b => b.toNat < 128 && p (Char.ofNat b.toNat)) = true) : ∀ c ∈ s.toList, p c = true := by
  have hbytes : s.toByteArray.data.toList = s.toList.flatMap String.utf8EncodeChar := by
    conv_lhs => rw [← s.ofList_toList]
    show (s.toList.utf8Encode).data.toList = _
    rw [List.utf8Encode, List.data_toByteArray]
  rw [hbytes] at h
  exact fun c hc => char_of_bytes fun b hb => List.all_eq_true.1 h b (List.mem_flatMap.2 ⟨c, hc, hb⟩)

/-- A character of a help text. -/
def isHelpChar (c : Char) : Bool := c ≠ '\n' && c ≠ '\\'

/-- Nothing but the values depends on the snapshot. -/
theorem series_texts (s s' : Snapshot) :
    s.series.map (fun x => (x.name, x.kind, x.help)) = s'.series.map fun x => (x.name, x.kind, x.help) := by
  simp only [series, counters, packetCounters, gauges, List.map_append, List.map_flatMap, List.map_cons, List.map_nil,
    Series.counter, Series.gauge]

theorem family_wellFormed (s : Snapshot) : ∀ x ∈ s.series, x.family.WellFormed := by
  have hcheck : ∀ e ∈ initial.series.map (fun x => (x.name, x.kind, x.help)), e.1 ≠ "" ∧
      e.1.toByteArray.data.toList.all (fun b => b.toNat < 128 && Exposition.isNameChar (Char.ofNat b.toNat)) = true ∧
      e.2.2.toByteArray.data.toList.all (fun b => b.toNat < 128 && isHelpChar (Char.ofNat b.toNat)) = true := by
    decide +kernel
  rw [series_texts initial s] at hcheck
  intro x hx
  obtain ⟨hne, hname, hhelp⟩ := hcheck _ (List.mem_map_of_mem hx)
  have hchar : ∀ c ∈ x.help.toList, isHelpChar c = true := all_of_bytes hhelp
  refine ⟨⟨fun h => hne (String.toList_eq_nil_iff.1 h), all_of_bytes hname⟩, ⟨fun h => ?_, fun h => ?_⟩, ?_, ?_⟩
  · cases hchar _ h
  · cases hchar _ h
  · have hkind : ∀ k : SeriesKind, Exposition.Name (match k with
        | .counter => "counter".toList
        | .gauge => "gauge".toList) := by
      intro k
      cases k with
      | counter => exact .of_all (by decide) (by decide)
      | gauge => exact .of_all (by decide) (by decide)
    exact hkind x.kind
  · intro sample hsample l hl
    rw [List.mem_singleton.1 hsample] at hl
    cases hl

theorem families_nodup (s : Snapshot) : (s.families.map (·.name)).Nodup := by
  have hbuild : "mqtt_build_info" ∉ s.series.map (·.name) := by
    rw [series_names s initial]
    decide +kernel
  have hnames : s.families.map (·.name) = ((s.series.map (·.name)) ++ ["mqtt_build_info"]).map String.toList := by
    rw [families, List.map_append, List.map_append, List.map_map, List.map_map]
    rfl
  rw [hnames]
  refine List.Nodup.map (fun _ _ h => String.toList_inj.1 h) (List.nodup_append.2 ⟨s.series_nodup, by simp, ?_⟩)
  intro a ha b hb heq
  rw [List.mem_singleton] at hb
  exact hbuild (hb ▸ heq ▸ ha)

/-- A version without quotes, escapes and line ends is read back. -/
theorem buildInfo_wellFormed {version : String} (hv : ∀ c ∈ version.toList, Exposition.isPlain c = true) :
    (buildInfo version).WellFormed := by
  have hname : Exposition.Name "mqtt_build_info".toList := .of_all (by decide) (by decide)
  have hhelp : '\n' ∉ "Broker build information.".toList ∧ '\\' ∉ "Broker build information.".toList := ⟨by decide, by decide⟩
  have hkind : Exposition.Name "gauge".toList := .of_all (by decide) (by decide)
  have hlabel : Exposition.Name "version".toList := .of_all (by decide) (by decide)
  refine ⟨hname, hhelp, hkind, fun sample hsample l hl => ?_⟩
  rw [List.mem_singleton.1 hsample] at hl
  rw [List.mem_singleton.1 hl]
  exact ⟨hlabel, hv⟩

theorem read_toPrometheus (s : Snapshot) (hv : ∀ c ∈ s.version.toList, Exposition.isPlain c = true) :
    Exposition.read s.toPrometheus.toList = some s.families := by
  rw [toList_toPrometheus]
  refine Exposition.read_write (fun f hf => ?_) s.families_nodup
  rcases List.mem_append.1 hf with hf | hf
  · obtain ⟨x, hx, rfl⟩ := List.mem_map.1 hf
    exact s.family_wellFormed x hx
  · rw [List.mem_singleton.1 hf]
    exact buildInfo_wellFormed hv

end Snapshot

/-- **What a scrape reads**: to whom it is answered, `GET /metrics` is answered with a text in which a scraper finds the
statistics of the snapshot, each once, under its name, with its kind, its help and its value, and the version. -/
theorem scrape_exact (S : Serde) (turns : Nat → Turn) (st : State) (req : Request) (hauth : authorized st req = true)
    (hmethod : req.method = "GET") (hpath : req.path = "/metrics") :
    ∃ text, (route S turns req st).1 = ⟨"200 OK", "text/plain; version=0.0.4", utf8 text⟩ ∧
      Exposition.read text.toList = some ((st.turn (turns 0)).snapshot (turns 0).circumstances).1.families ∧
      (((st.turn (turns 0)).snapshot (turns 0).circumstances).1.families.map (·.name)).Nodup := by
  refine ⟨((st.turn (turns 0)).snapshot (turns 0).circumstances).1.toPrometheus, ?_, ?_, Snapshot.families_nodup _⟩
  · simp [route, hauth, hmethod, hpath]
  · have hversion : ∀ ch ∈ version.toList, Exposition.isPlain ch = true := List.all_eq_true.1 (by decide)
    exact Snapshot.read_toPrometheus _ hversion

/-- With the token, and a packet that comes in before the snapshot is taken. -/
theorem scrape_exact_accepted :
    let arrival : Turn :=
      { circumstances := ⟨5000, 5, {}⟩, counters := fun cs => { cs with packetsReceived := cs.packetsReceived + 1 } }
    ∃ text, (route emptyBatch (fun _ => arrival) ⟨"GET", "/metrics", [], some "s3cr3t"⟩ (accepted 3)).1 =
      ⟨"200 OK", "text/plain; version=0.0.4", utf8 text⟩ ∧
    Exposition.read text.toList = some (((accepted 3).turn arrival).snapshot ⟨5000, 5, {}⟩).1.families ∧
    ((((accepted 3).turn arrival).snapshot ⟨5000, 5, {}⟩).1.families.map (·.name)).Nodup :=
  scrape_exact emptyBatch _ (accepted 3) ⟨"GET", "/metrics", [], some "s3cr3t"⟩
    ((authorized_iff rfl).2 rfl) rfl rfl

/-- A broker without a token answers everyone. -/
example (req : Request) : authorized {} req = true := rfl

end WispMQ.Admin
