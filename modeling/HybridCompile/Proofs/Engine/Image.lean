import HybridCompile.Engine.Backend
import HybridCompile.Proofs.Json.Values

/-!
# HybridCompile — images of engines

The image of an engine is the JSON text of its network, its options and its calibration. Nothing of
them is lost in it: each is found in the value again, field by field, and the value in the text.

* `Network.toJson_inj`, `EngineOptions.toJson_inj` — the parts.
* `engineImage_inj` — the image; `engineBytes_inj` — its bytes.
* `calibrationIn?` — the calibration as it is read out of the bytes of an engine.
-/

namespace HybridCompile

/-! ## Names -/

theorem ElementType.name_inj {t t' : ElementType} (h : t.name = t'.name) : t = t' := by
  cases t <;> cases t' <;> first | rfl | exact absurd h (by decide)

theorem ElementType.toJson_inj {t t' : ElementType} (h : t.toJson = t'.toJson) : t = t' :=
  name_inj (Json.str_inj.mp h)

theorem Layout.name_inj {l l' : Layout} (h : l.name = l'.name) : l = l' := by
  cases l <;> cases l' <;> first | rfl | exact absurd h (by decide)

theorem DeviceKind.name_inj {k k' : DeviceKind} (h : k.name = k'.name) : k = k' := by
  cases k <;> cases k' <;> first | rfl | exact absurd h (by decide)

theorem Capability.name_inj {c c' : Capability} (h : c.name = c'.name) : c = c' := by
  cases c <;> cases c' <;> first | rfl | exact absurd h (by decide)

theorem CalibrationMode.name_inj {m m' : CalibrationMode} (h : m.name = m'.name) : m = m' := by
  cases m <;> cases m' <;> first | rfl | exact absurd h (by decide)

/-! ## Networks -/

theorem dimsJson_inj {dims dims' : Dims} : dimsJson dims = dimsJson dims' ↔ dims = dims' :=
  Json.array_map_inj fun _ _ h => Int64.toInt_inj.mp (Json.ofInt_inj.mp h)

theorem wellFormed_dimsJson (dims : Dims) : (dimsJson dims).WellFormed :=
  Json.wellFormed_array_map (fun _ => Json.wellFormed_ofInt _) dims

theorem Profile.members_inj {p p' : Profile} :
    Json.record p.members = Json.record p'.members ↔ p = p' := by
  refine ⟨fun h => ?_, fun h => h ▸ rfl⟩
  simp only [members, Json.record_cons_inj, dimsJson_inj, Layout.toJson, Json.str_inj, true_and,
    and_true] at h
  obtain ⟨hmin, hopt, hmax, hdtype, hlayout⟩ := h
  exact Profile.ext hmin hopt hmax (ElementType.toJson_inj hdtype) (Layout.name_inj hlayout)

theorem Profile.wellFormed_members (p : Profile) : ∀ m ∈ p.members, m.2.WellFormed := by
  simp only [members, List.forall_mem_cons]
  exact ⟨wellFormed_dimsJson _, wellFormed_dimsJson _, wellFormed_dimsJson _, .str _, .str _,
    by simp⟩

/-- A binding is found again in its JSON value: one with a profile has more members than one
without. -/
theorem InputBinding.toJson_inj {b b' : InputBinding} (h : b.toJson = b'.toJson) : b = b' := by
  cases b <;> cases b' <;>
    simp only [toJson, Json.record_cons_inj, Json.str_inj, true_and, Profile.members_inj] at h
  · rw [h]
  · exact absurd h.1 (by decide)
  · exact absurd h.1 (by decide)
  · rfl

theorem InputBinding.wellFormed_toJson (b : InputBinding) : b.toJson.WellFormed := by
  cases b with
  | profile p => exact .record (List.forall_mem_cons.mpr ⟨.str _, p.wellFormed_members⟩)
  | inferred => exact .record (List.forall_mem_cons.mpr ⟨.str _, by simp⟩)

/-- An input is found again in its JSON value, its binding by `InputBinding.toJson_inj`. -/
theorem NetworkInput.toJson_inj {i i' : NetworkInput} (h : i.toJson = i'.toJson) : i = i' := by
  simp only [toJson, Json.record_cons_inj, Json.str_inj, true_and, and_true] at h
  exact NetworkInput.ext h.1 (InputBinding.toJson_inj h.2)

theorem NetworkInput.wellFormed_toJson (i : NetworkInput) : i.toJson.WellFormed := by
  refine .record ?_
  simp only [List.forall_mem_cons]
  exact ⟨.str _, i.binding.wellFormed_toJson, by simp⟩

theorem Layer.toJson_inj {l l' : Layer} (h : l.toJson = l'.toJson) : l = l' := by
  simp only [toJson, Json.record_cons_inj, Json.str_inj, Json.texts_inj, true_and, and_true] at h
  obtain ⟨hname, hkind, hinputs, houtputs⟩ := h
  exact Layer.ext hname hkind hinputs houtputs

theorem Layer.wellFormed_toJson (l : Layer) : l.toJson.WellFormed := by
  refine .record ?_
  simp only [List.forall_mem_cons]
  exact ⟨.str _, .str _, Json.wellFormed_texts _, Json.wellFormed_texts _, by simp⟩

/-- A network is found again in its JSON value. -/
theorem Network.toJson_inj {n n' : Network} : n.toJson = n'.toJson ↔ n = n' := by
  refine ⟨fun h => ?_, fun h => h ▸ rfl⟩
  simp only [toJson, Json.record_cons_inj, Json.ofNat_inj, Json.str_inj, Json.texts_inj,
    Json.array_map_inj fun _ _ => Layer.toJson_inj,
    Json.array_map_inj fun _ _ => NetworkInput.toJson_inj, true_and, and_true] at h
  obtain ⟨hregion, hname, hlayers, hinputs, houtputs⟩ := h
  exact Network.ext hregion hname hlayers hinputs houtputs

theorem Network.wellFormed_toJson (n : Network) : n.toJson.WellFormed := by
  refine .record ?_
  simp only [List.forall_mem_cons]
  exact ⟨Json.wellFormed_ofNat _, .str _, Json.wellFormed_array_map Layer.wellFormed_toJson _,
    Json.wellFormed_array_map NetworkInput.wellFormed_toJson _, Json.wellFormed_texts _, by simp⟩

/-! ## Options -/

theorem Device.toJson_inj {d d' : Device} (h : d.toJson = d'.toJson) : d = d' := by
  simp only [toJson, Json.record_cons_inj, Json.str_inj, Json.ofNat_inj, Json.bool.injEq,
    UInt32.toNat_inj, true_and, and_true] at h
  obtain ⟨hkind, hprimary, hcore, hallow⟩ := h
  exact Device.ext (DeviceKind.name_inj hkind) hprimary hcore hallow

theorem Device.wellFormed_toJson (d : Device) : d.toJson.WellFormed := by
  refine .record ?_
  simp only [List.forall_mem_cons]
  exact ⟨.str _, Json.wellFormed_ofNat _, Json.wellFormed_ofNat _, .bool _, by simp⟩

theorem LoweringMode.toJson_inj {m m' : LoweringMode} (h : m.toJson = m'.toJson) : m = m' := by
  simp only [toJson, Json.record_cons_inj, Json.bool.injEq, true_and, and_true] at h
  exact LoweringMode.ext h.1 h.2

theorem LoweringMode.wellFormed_toJson (m : LoweringMode) : m.toJson.WellFormed := by
  refine .record ?_
  simp only [List.forall_mem_cons]
  exact ⟨.bool _, .bool _, by simp⟩

/-- The options of an engine are found again in their JSON value. -/
theorem EngineOptions.toJson_inj {o o' : EngineOptions} : o.toJson = o'.toJson ↔ o = o' := by
  refine ⟨fun h => ?_, fun h => h ▸ rfl⟩
  simp only [toJson, Json.record_cons_inj, CalibrationMode.toJson, Json.str_inj, Json.ofNat_inj,
    Json.bool.injEq, Json.orNull_str_inj, UInt32.toNat_inj, UInt64.toNat_inj,
    Json.array_map_inj fun _ _ => ElementType.toJson_inj, true_and, and_true] at h
  obtain ⟨hprecisions, hdevice, hcapability, hworkspace, hmin, havg, hbatch, hsparse, htf32, hrefit,
    hdebug, hstrict, htruncate, hlowering, hmode, hcalibrator⟩ := h
  exact EngineOptions.ext hprecisions (Device.toJson_inj hdevice) (Capability.name_inj hcapability)
    hworkspace hmin havg hbatch (Flags.ext hsparse htf32 hrefit hdebug hstrict htruncate)
    (LoweringMode.toJson_inj hlowering) (CalibrationMode.name_inj hmode) hcalibrator

theorem EngineOptions.wellFormed_toJson (o : EngineOptions) : o.toJson.WellFormed := by
  refine .record ?_
  simp only [List.forall_mem_cons]
  exact ⟨Json.wellFormed_array_map (fun _ => .str _) _, o.device.wellFormed_toJson, .str _,
    Json.wellFormed_ofNat _, Json.wellFormed_ofNat _, Json.wellFormed_ofNat _, Json.wellFormed_ofNat _,
    .bool _, .bool _, .bool _, .bool _, .bool _, .bool _, o.lowering.wellFormed_toJson, .str _,
    Json.wellFormed_orNull .str _, by simp⟩

/-! ## Images -/

variable {n n' : Network} {o o' : EngineOptions} {calibration calibration' : Option String}

/-- The image tells of what network it is, with what options and what calibration: each is a member
of its own. -/
theorem engineImage_inj : engineImage n o calibration = engineImage n' o' calibration' ↔
    n = n' ∧ o = o' ∧ calibration = calibration' := by
  simp only [engineImage, Json.record_cons_inj, Network.toJson_inj, EngineOptions.toJson_inj,
    Json.orNull_str_inj, true_and, and_true]

/-- The image is well-formed, so `Json.compact_inj` can tell it from its text. -/
theorem wellFormed_engineImage (n : Network) (o : EngineOptions) (calibration : Option String) :
    (engineImage n o calibration).WellFormed := by
  refine .record ?_
  simp only [List.forall_mem_cons]
  exact ⟨.str _, .str _, n.wellFormed_toJson, o.wellFormed_toJson, Json.wellFormed_orNull .str _,
    by simp⟩

/-- The bytes of the engine of a network. -/
def engineBytes (n : Network) (o : EngineOptions) (calibration : Option String) : Bytes :=
  Utf8.encode (engineImage n o calibration).compact

/-- The bytes of an engine tell of what network it is, with what options and what calibration. -/
theorem engineBytes_inj : engineBytes n o calibration = engineBytes n' o' calibration' ↔
    n = n' ∧ o = o' ∧ calibration = calibration' := by
  rw [← engineImage_inj, ← Json.compact_inj (wellFormed_engineImage _ _ _)
    (wellFormed_engineImage _ _ _)]
  exact Utf8.encode_inj

/-! ## Reading an engine -/

/-- The calibration that an engine embeds, as a reader of its bytes finds it: the text of the member
`calibration_cache` in the JSON value that they spell. -/
def calibrationIn? (bytes : Bytes) : Option String :=
  ((Utf8.decode? bytes).bind Json.parse?).bind fun v => (v.get? "calibration_cache").bind Json.text?

/-- The calibration of `engineBytes` is found in them by `calibrationIn?`, through `parse?_compact`;
and none is found where there is none. -/
theorem calibrationIn?_engineBytes (n : Network) (o : EngineOptions) (calibration : Option String) :
    calibrationIn? (engineBytes n o calibration) = calibration := by
  have hmember : (engineImage n o calibration).get? "calibration_cache" =
      some (.orNull .str calibration) := by
    simp [engineImage, Json.record, Json.get?, Json.lookup]
  rw [calibrationIn?, engineBytes, Utf8.decode?_encode, Option.bind_some,
    Json.parse?_compact (wellFormed_engineImage n o calibration), Option.bind_some, hmember]
  cases calibration <;> rfl

end HybridCompile
