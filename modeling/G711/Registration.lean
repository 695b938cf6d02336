import G711.Equivalence

/-!
# `lib.rs`: registering both laws

`register_codecs` enters the factories of both laws into a codec registry, once under each of their
names.  The registry belongs to the framework: `CodecRegistry` takes its functions as parameters,
together with the list of registrations that its lookups go by.

`registration_law` is about any history of such registrations among those of other crates: a name of
a law always leads to the factories of that law, whatever else was registered before, in between or
after, and how often.
-/

namespace G711

/-! ### What the crate takes from the registry -/

/-- `oxideav_core::CodecCapabilities` of an audio codec. -/
structure CodecCapabilities where
  implementation : String
  lossy : Bool
  intraOnly : Bool

/-- `oxideav_core::CodecTag`; the crate only builds the first kind. -/
inductive CodecTag
  | waveFormat (tag : UInt16)
  | other (text : String)
  deriving DecidableEq

/-- `oxideav_core::CodecInfo` with the factories of boxed decoders `D` and encoders `E`. -/
structure CodecInfo (D E : Type) where
  id : CodecId
  capabilities : CodecCapabilities
  decoder : Option (CodecParameters → Outcome D)
  encoder : Option (CodecParameters → Outcome E)
  tags : List CodecTag

/-- A lookup calls the factory of the first registration under the codec id and hands on what it
returns, errors included.  Where that registration has no such factory, what is known is that the
lookup ends in an error, or in what another factory under the codec id returns. -/
structure FirstOf {D E β : Type} (infos : List (CodecInfo D E))
    (factory : CodecInfo D E → Option (CodecParameters → Outcome β))
    (first : CodecParameters → Outcome β) : Prop where
  of_first : ∀ params info f, infos.find? (·.id = params.codecId) = some info →
    factory info = some f → first params = f params
  of_other : ∀ params,
    (∃ info ∈ infos, info.id = params.codecId ∧ ∃ f, factory info = some f ∧
      first params = f params) ∨ ∃ err, first params = .error (.err err)

/-- `oxideav_core::CodecRegistry`. -/
structure CodecRegistry (D E : Type) where
  State : Type
  /-- `CodecRegistry::new`. -/
  new : State
  /-- `CodecRegistry::register`. -/
  register : State → CodecInfo D E → State
  hasDecoder : State → CodecId → Bool
  hasEncoder : State → CodecId → Bool
  firstDecoder : State → CodecParameters → Outcome D
  firstEncoder : State → CodecParameters → Outcome E
  /-- The registrations that a registry was given. -/
  infos : State → List (CodecInfo D E)
  infos_new : infos new = []
  infos_register : ∀ reg info, infos (register reg info) = infos reg ++ [info]
  hasDecoder_iff : ∀ reg id,
    hasDecoder reg id = true ↔ ∃ info ∈ infos reg, info.id = id ∧ info.decoder.isSome
  hasEncoder_iff : ∀ reg id,
    hasEncoder reg id = true ↔ ∃ info ∈ infos reg, info.id = id ∧ info.encoder.isSome
  firstDecoder_spec : ∀ reg, FirstOf (infos reg) CodecInfo.decoder (firstDecoder reg)
  firstEncoder_spec : ∀ reg, FirstOf (infos reg) CodecInfo.encoder (firstEncoder reg)

/-! ### `register_codecs` -/

/-- `CODEC_ID_MULAW`. -/
def codecIdMulaw : CodecId := "pcm_mulaw"

/-- `CODEC_ID_ALAW`. -/
def codecIdAlaw : CodecId := "pcm_alaw"

/-- `MULAW_ALIASES`. -/
def mulawAliases : List CodecId := ["pcm_mulaw", "ulaw", "g711u"]

/-- `ALAW_ALIASES`. -/
def alawAliases : List CodecId := ["pcm_alaw", "alaw", "g711a"]

namespace Law

/-- The names of a law. -/
def aliases : Law → List CodecId
  | .mulaw => mulawAliases
  | .alaw => alawAliases

/-- The name of a law that carries its tag. -/
def codecId : Law → CodecId
  | .mulaw => codecIdMulaw
  | .alaw => codecIdAlaw

/-- What `register_codecs` calls the codec of a law. -/
def implementation : Law → String
  | .mulaw => "g711_mulaw_sw"
  | .alaw => "g711_alaw_sw"

/-- The format tag of a law in a WAVE header. -/
def waveFormat : Law → UInt16
  | .mulaw => 0x0007
  | .alaw => 0x0006

end Law

section Register

variable (K : OxideavCore) {D E : Type}

/-- Trait objects of any crate: those of the two laws, and those of other crates. -/
abbrev DynDecoder (D : Type) := BoxDecoder ⊕ D

/-- Trait objects of any crate: those of the two laws, and those of other crates. -/
abbrev DynEncoder (E : Type) := BoxEncoder ⊕ E

/-- What one round of a loop of `register_codecs` registers. -/
def aliasInfo (implementation : String) (law : Law) (waveFormat : UInt16) (name : CodecId)
    (idx : ℕ) : CodecInfo (DynDecoder D) (DynEncoder E) :=
  let caps := { implementation, lossy := true, intraOnly := true }
  let info := {
    id := name
    capabilities := caps
    decoder := some fun params => (law.makeDecoder params).map .inl
    encoder := some fun params => (law.makeEncoder K params).map .inl
    tags := [] }
  if idx = 0 then { info with tags := info.tags ++ [.waveFormat waveFormat] } else info

variable (R : CodecRegistry (DynDecoder D) (DynEncoder E))

/-- `register_codecs`. -/
def registerCodecs (reg : R.State) : R.State :=
  let reg := mulawAliases.zipIdx.foldl (fun reg (name, idx) =>
    R.register reg (aliasInfo K "g711_mulaw_sw" .mulaw 0x0007 name idx)) reg
  alawAliases.zipIdx.foldl (fun reg (name, idx) =>
    R.register reg (aliasInfo K "g711_alaw_sw" .alaw 0x0006 name idx)) reg

/-- `oxideav_core::RuntimeContext`, the part that `register` uses. -/
structure RuntimeContext where
  codecs : R.State

/-- `register`. -/
def register (ctx : RuntimeContext R) : RuntimeContext R :=
  { ctx with codecs := registerCodecs K R ctx.codecs }

/-! ### Histories of registrations -/

/-- A registration into a context: of this crate, or of a codec of another crate. -/
inductive Registration (D E : Type)
  | g711
  | foreign (info : CodecInfo (DynDecoder D) (DynEncoder E))

/-- The context after a registration. -/
def RuntimeContext.after (ctx : RuntimeContext R) : Registration D E → RuntimeContext R
  | .g711 => register K R ctx
  | .foreign info => { ctx with codecs := R.register ctx.codecs info }

/-- The new context after a history of registrations. -/
def contextOf (history : List (Registration D E)) : RuntimeContext R :=
  history.foldl (RuntimeContext.after K R) ⟨R.new⟩

/-- The registrations of one law. -/
def Law.infos (law : Law) : List (CodecInfo (DynDecoder D) (DynEncoder E)) :=
  law.aliases.zipIdx.map fun x => aliasInfo K law.implementation law law.waveFormat x.1 x.2

/-- What a registration enters. -/
def Registration.infos : Registration D E → List (CodecInfo (DynDecoder D) (DynEncoder E))
  | .g711 => Law.mulaw.infos K ++ Law.alaw.infos K
  | .foreign info => [info]

theorem infos_foldl {α : Type} (f : α → CodecInfo (DynDecoder D) (DynEncoder E)) (l : List α)
    (reg : R.State) :
    R.infos (l.foldl (fun reg a => R.register reg (f a)) reg) = R.infos reg ++ l.map f := by
  induction l generalizing reg with
  | nil => simp
  | cons a l ih => rw [List.foldl_cons, ih, R.infos_register, List.map_cons, List.append_assoc,
      List.singleton_append]

theorem infos_registerCodecs (reg : R.State) :
    R.infos (registerCodecs K R reg)
      = R.infos reg ++ (Law.mulaw.infos K ++ Law.alaw.infos K) := by
  have halaw := infos_foldl R (fun (name, idx) => aliasInfo K "g711_alaw_sw" .alaw 0x0006 name idx)
    alawAliases.zipIdx (mulawAliases.zipIdx.foldl (fun reg (name, idx) =>
      R.register reg (aliasInfo K "g711_mulaw_sw" .mulaw 0x0007 name idx)) reg)
  have hmulaw := infos_foldl R
    (fun (name, idx) => aliasInfo K "g711_mulaw_sw" .mulaw 0x0007 name idx) mulawAliases.zipIdx reg
  rw [hmulaw, List.append_assoc] at halaw
  exact halaw

theorem infos_after (ctx : RuntimeContext R) (step : Registration D E) :
    R.infos (ctx.after K R step).codecs = R.infos ctx.codecs ++ step.infos K := by
  cases step with
  | g711 => exact infos_registerCodecs K R ctx.codecs
  | foreign info => exact R.infos_register ctx.codecs info

/-- A registry holds what the history entered, in order. -/
theorem infos_contextOf (history : List (Registration D E)) :
    R.infos (contextOf K R history).codecs = history.flatMap (Registration.infos K) := by
  have hrun : ∀ ctx : RuntimeContext R, R.infos (history.foldl (RuntimeContext.after K R) ctx).codecs
      = R.infos ctx.codecs ++ history.flatMap (Registration.infos K) := by
    induction history with
    | nil => simp
    | cons step history ih =>
      intro ctx
      rw [List.foldl_cons, ih, infos_after, List.flatMap_cons, List.append_assoc]
  rw [contextOf, hrun, R.infos_new, List.nil_append]

/-! ### What a name leads to -/

theorem Law.eq_of_mem_aliases {law law' : Law} {id : CodecId} (h : id ∈ law.aliases)
    (h' : id ∈ law'.aliases) : law = law' := by
  have hdisjoint : ∀ id ∈ mulawAliases, id ∉ alawAliases := by decide
  cases law <;> cases law'
  · rfl
  · exact absurd h' (hdisjoint id h)
  · exact absurd h (hdisjoint id h')
  · rfl

/-- A registration with the factories of a law, and its tag under its first name only. -/
structure Enters (law : Law) (info : CodecInfo (DynDecoder D) (DynEncoder E)) : Prop where
  decoder_eq : info.decoder = some fun params => (law.makeDecoder params).map .inl
  encoder_eq : info.encoder = some fun params => (law.makeEncoder K params).map .inl
  tags_eq : info.tags = if info.id = law.codecId then [.waveFormat law.waveFormat] else []

theorem aliasInfo_eq (implementation : String) (law : Law) (waveFormat : UInt16) (name : CodecId)
    (idx : ℕ) :
    (aliasInfo K implementation law waveFormat name idx : CodecInfo (DynDecoder D) (DynEncoder E))
      = {
        id := name
        capabilities := { implementation, lossy := true, intraOnly := true }
        decoder := some fun params => (law.makeDecoder params).map .inl
        encoder := some fun params => (law.makeEncoder K params).map .inl
        tags := if idx = 0 then [.waveFormat waveFormat] else [] } := by
  unfold aliasInfo
  split_ifs <;> rfl

theorem Law.enters_of_mem_infos {law : Law} {info : CodecInfo (DynDecoder D) (DynEncoder E)}
    (h : info ∈ law.infos K) : info.id ∈ law.aliases ∧ Enters K law info := by
  obtain ⟨⟨name, idx⟩, hmem, rfl⟩ := List.mem_map.1 h
  have hfirst : ∀ x ∈ law.aliases.zipIdx, x.1 ∈ law.aliases ∧ (x.2 = 0 ↔ x.1 = law.codecId) := by
    cases law <;> decide
  obtain ⟨hname, hidx⟩ := hfirst _ hmem
  rw [aliasInfo_eq]
  exact ⟨hname, rfl, rfl, if_congr hidx rfl rfl⟩

theorem Law.exists_mem_infos {law : Law} {id : CodecId} (h : id ∈ law.aliases) :
    ∃ info ∈ (law.infos K : List (CodecInfo (DynDecoder D) (DynEncoder E))), info.id = id := by
  obtain ⟨idx, hidx⟩ := List.mem_iff_getElem?.1 h
  have hmem : (id, idx) ∈ law.aliases.zipIdx := List.mem_zipIdx_iff_getElem?.2 hidx
  exact ⟨_, List.mem_map.2 ⟨_, hmem, rfl⟩, by rw [aliasInfo_eq]⟩

/-- The registrations of other crates are under other names. -/
def Foreign (history : List (Registration D E)) : Prop :=
  ∀ info, .foreign info ∈ history → ∀ law : Law, info.id ∉ law.aliases

section History

variable {R} {history : List (Registration D E)}

/-- Under a name of a law a registry holds what the crate entered, if it was registered. -/
theorem mem_infos_iff (hforeign : Foreign history) {law : Law}
    {info : CodecInfo (DynDecoder D) (DynEncoder E)} (hid : info.id ∈ law.aliases) :
    info ∈ R.infos (contextOf K R history).codecs ↔ .g711 ∈ history ∧ info ∈ law.infos K := by
  rw [infos_contextOf, List.mem_flatMap]
  constructor
  · rintro ⟨step, hstep, hinfo⟩
    cases step with
    | g711 =>
      refine ⟨hstep, ?_⟩
      rcases List.mem_append.1 hinfo with h | h
      · rwa [Law.eq_of_mem_aliases hid (Law.enters_of_mem_infos K h).1]
      · rwa [Law.eq_of_mem_aliases hid (Law.enters_of_mem_infos K h).1]
    | foreign other =>
      obtain rfl := List.mem_singleton.1 hinfo
      exact absurd hid (hforeign _ hstep law)
  · rintro ⟨hstep, hinfo⟩
    refine ⟨.g711, hstep, List.mem_append.2 ?_⟩
    cases law with
    | mulaw => exact Or.inl hinfo
    | alaw => exact Or.inr hinfo

theorem exists_info_iff (hforeign : Foreign history) {law : Law} {id : CodecId}
    (hid : id ∈ law.aliases) {P : CodecInfo (DynDecoder D) (DynEncoder E) → Prop}
    (hP : ∀ info, Enters K law info → P info) :
    (∃ info ∈ R.infos (contextOf K R history).codecs, info.id = id ∧ P info)
      ↔ .g711 ∈ history := by
  constructor
  · rintro ⟨info, hinfo, rfl, -⟩
    exact ((mem_infos_iff K hforeign hid).1 hinfo).1
  · intro hstep
    obtain ⟨info, hlaw, rfl⟩ := Law.exists_mem_infos (D := D) (E := E) K hid
    exact ⟨info, (mem_infos_iff K hforeign hid).2 ⟨hstep, hlaw⟩, rfl,
      hP info (Law.enters_of_mem_infos K hlaw).2⟩

theorem map_inl_eq_ok_iff {α β : Type} {r : Outcome α} {b : α ⊕ β} :
    r.map Sum.inl = .ok b ↔ ∃ a, r = .ok a ∧ b = .inl a := by
  cases r <;> simp [Except.map, eq_comm]

section First

variable {α β : Type} {factory : CodecInfo (DynDecoder D) (DynEncoder E) →
    Option (CodecParameters → Outcome (α ⊕ β))}
  {first : CodecParameters → Outcome (α ⊕ β)} {make : CodecParameters → Outcome α} {law : Law}

/-- Under a name of a law a lookup returns what the factory of that law returns, if the crate was
registered, and else an error. -/
theorem first_eq (hfirst : FirstOf (R.infos (contextOf K R history).codecs) factory first)
    (hmake : ∀ info, Enters K law info → factory info = some fun params => (make params).map .inl)
    (hforeign : Foreign history) {params : CodecParameters} (hid : params.codecId ∈ law.aliases) :
    (.g711 ∈ history → first params = (make params).map .inl) ∧
      (.g711 ∉ history → ∃ err, first params = .error (.err err)) := by
  constructor
  · intro hstep
    obtain ⟨info, hlaw, hname⟩ := Law.exists_mem_infos (D := D) (E := E) K hid
    have hinfo := (mem_infos_iff (R := R) K hforeign (hname ▸ hid)).2 ⟨hstep, hlaw⟩
    cases hfind : (R.infos (contextOf K R history).codecs).find? (·.id = params.codecId) with
    | none =>
      rw [List.find?_eq_none] at hfind
      exact absurd (decide_eq_true hname) (hfind info hinfo)
    | some entered =>
      -- another registration may come first, but only one of the same law
      have hid' : entered.id = params.codecId := of_decide_eq_true (List.find?_some hfind :)
      obtain ⟨-, hentered⟩ := (mem_infos_iff K hforeign (hid' ▸ hid)).1
        (List.mem_of_find?_eq_some hfind)
      exact hfirst.of_first _ _ _ hfind (hmake entered (Law.enters_of_mem_infos K hentered).2)
  · intro hstep
    rcases hfirst.of_other params with ⟨info, hinfo, hname, -⟩ | herr
    · exact absurd ((mem_infos_iff K hforeign (hname ▸ hid)).1 hinfo).1 hstep
    · exact herr

theorem first_iff (hfirst : FirstOf (R.infos (contextOf K R history).codecs) factory first)
    (hmake : ∀ info, Enters K law info → factory info = some fun params => (make params).map .inl)
    (hforeign : Foreign history) {params : CodecParameters} (hid : params.codecId ∈ law.aliases)
    {b : α ⊕ β} :
    first params = .ok b ↔ .g711 ∈ history ∧ ∃ a, make params = .ok a ∧ b = .inl a := by
  obtain ⟨hregistered, hmissing⟩ := first_eq K hfirst hmake hforeign hid
  by_cases hstep : Registration.g711 ∈ history
  · rw [hregistered hstep, map_inl_eq_ok_iff, and_iff_right hstep]
  · obtain ⟨err, herr⟩ := hmissing hstep
    rw [herr]
    exact iff_of_false (fun h => nomatch h) fun h => hstep h.1

end First

/-- A lookup under another name ends at another crate. -/
theorem foreign_of_first {β : Type} {factory : CodecInfo (DynDecoder D) (DynEncoder E) →
      Option (CodecParameters → Outcome β)} {first : CodecParameters → Outcome β}
    (hfirst : FirstOf (R.infos (contextOf K R history).codecs) factory first)
    {params : CodecParameters} (hid : ∀ law : Law, params.codecId ∉ law.aliases) {b : β}
    (h : first params = .ok b) : ∃ info, .foreign info ∈ history ∧ info.id = params.codecId ∧
      ∃ f, factory info = some f ∧ f params = .ok b := by
  obtain ⟨info, hinfo, hname, f, hf, hb⟩ : ∃ info ∈ R.infos (contextOf K R history).codecs,
      info.id = params.codecId ∧ ∃ f, factory info = some f ∧ first params = f params := by
    refine (hfirst.of_other params).resolve_right ?_
    rintro ⟨err, herr⟩
    cases herr.symm.trans h
  rw [infos_contextOf, List.mem_flatMap] at hinfo
  obtain ⟨step, hstep, hmem⟩ := hinfo
  cases step with
  | g711 =>
    rcases List.mem_append.1 hmem with hlaw | hlaw
    · exact absurd (hname ▸ (Law.enters_of_mem_infos K hlaw).1) (hid .mulaw)
    · exact absurd (hname ▸ (Law.enters_of_mem_infos K hlaw).1) (hid .alaw)
  | foreign other =>
    obtain rfl := List.mem_singleton.1 hmem
    exact ⟨_, hstep, hname, f, hf, hb.symm.trans h⟩

end History

/-! ### The registration law -/

/-- Fresh decoders stay alike, and different ones different, under the same calls on both. -/
theorem alike_after_iff {law law' : Law} {params params' : CodecParameters} {d d' : BoxDecoder}
    (h : law.makeDecoder params = .ok d) (h' : law'.makeDecoder params' = .ok d')
    (ops : List DecoderOp) :
    decoderMachine.Alike (decoderMachine.final d ops) (decoderMachine.final d' ops) ↔
      law = law' ∧ params.channels.getD 1 = params'.channels.getD 1 := by
  obtain ⟨hd, hch, hs⟩ := Law.makeDecoder_spec h
  obtain ⟨hd', hch', hs'⟩ := Law.makeDecoder_spec h'
  constructor
  · intro halike
    obtain ⟨hlaw, hchannels, -⟩ :=
      (alike_iff_of_has (has_final hd ops) (has_final hd' ops) hch hch').1 halike
    exact ⟨hlaw, hchannels⟩
  · rintro ⟨hlaw, hchannels⟩
    refine ((alike_iff_of_has hd hd' hch hch').2 ⟨hlaw, hchannels, by rw [hs, hs'], ?_⟩).final ops
    rw [BoxDecoder.pending, BoxDecoder.pending, hs, hs']
    exact .none

theorem encoder_alike_after_iff {K : OxideavCore} {law law' : Law} {params params' : CodecParameters}
    {e e' : BoxEncoder} (h : law.makeEncoder K params = .ok e)
    (h' : law'.makeEncoder K params' = .ok e') (ops : List EncoderOp) :
    (encoderMachine K).Alike ((encoderMachine K).final e ops) ((encoderMachine K).final e' ops) ↔
      law = law' ∧ params.sampleRate.getD 8000 = params'.sampleRate.getD 8000 := by
  obtain ⟨he, -, -, hq⟩ := Law.makeEncoder_spec h
  obtain ⟨he', -, -, hq'⟩ := Law.makeEncoder_spec h'
  rw [← timeBaseOf_inj K]
  constructor
  · intro halike
    obtain ⟨hlaw, hrate, -⟩ :=
      (alike_encoders_iff (encoder_has_final he ops) (encoder_has_final he' ops)).1 halike
    exact ⟨hlaw, hrate⟩
  · rintro ⟨hlaw, hrate⟩
    exact ((alike_encoders_iff he he').2 ⟨hlaw, hrate, by rw [hq, hq']⟩).final ops

/-- What the registry of a context answers after a history of registrations. -/
structure RegistrationLaw (history : List (Registration D E)) (reg : R.State) : Prop where
  /-- There are codecs under a name of a law exactly when the crate was registered. -/
  has_iff : ∀ (law : Law), ∀ id ∈ law.aliases,
    (R.hasDecoder reg id = true ↔ .g711 ∈ history) ∧
      (R.hasEncoder reg id = true ↔ .g711 ∈ history)
  /-- Then a lookup returns what the factory of that law returns, errors included; else it returns
  an error. -/
  decoder_eq : ∀ (law : Law) params, params.codecId ∈ law.aliases →
    (.g711 ∈ history → R.firstDecoder reg params = (law.makeDecoder params).map .inl) ∧
      (.g711 ∉ history → ∃ err, R.firstDecoder reg params = .error (.err err))
  encoder_eq : ∀ (law : Law) params, params.codecId ∈ law.aliases →
    (.g711 ∈ history → R.firstEncoder reg params = (law.makeEncoder K params).map .inl) ∧
      (.g711 ∉ history → ∃ err, R.firstEncoder reg params = .error (.err err))
  /-- Only the first name of a law carries a tag, the one of that law. -/
  tag_iff : ∀ (law : Law), ∀ info ∈ R.infos reg, info.id ∈ law.aliases → ∀ tag,
    tag ∈ info.tags ↔ info.id = law.codecId ∧ tag = .waveFormat law.waveFormat
  /-- Every other name leads to a factory of another crate. -/
  foreign_decoder : ∀ params d, (∀ law : Law, params.codecId ∉ law.aliases) →
    R.firstDecoder reg params = .ok d → ∃ info, .foreign info ∈ history ∧
      info.id = params.codecId ∧ ∃ f, info.decoder = some f ∧ f params = .ok d
  foreign_encoder : ∀ params e, (∀ law : Law, params.codecId ∉ law.aliases) →
    R.firstEncoder reg params = .ok e → ∃ info, .foreign info ∈ history ∧
      info.id = params.codecId ∧ ∃ f, info.encoder = some f ∧ f params = .ok e
  /-- Two names lead to decoders that respond alike, whatever was called on both, exactly when they
  name one law and the channels agree. -/
  same_decoder_iff : ∀ (law law' : Law) params params' d d',
    params.codecId ∈ law.aliases → params'.codecId ∈ law'.aliases →
    R.firstDecoder reg params = .ok (.inl d) → R.firstDecoder reg params' = .ok (.inl d') →
    ∀ ops, decoderMachine.Alike (decoderMachine.final d ops) (decoderMachine.final d' ops) ↔
      law = law' ∧ params.channels.getD 1 = params'.channels.getD 1
  /-- The same for encoders and sample rates. -/
  same_encoder_iff : ∀ (law law' : Law) params params' e e',
    params.codecId ∈ law.aliases → params'.codecId ∈ law'.aliases →
    R.firstEncoder reg params = .ok (.inl e) → R.firstEncoder reg params' = .ok (.inl e') →
    ∀ ops, (encoderMachine K).Alike ((encoderMachine K).final e ops)
        ((encoderMachine K).final e' ops) ↔
      law = law' ∧ params.sampleRate.getD 8000 = params'.sampleRate.getD 8000

variable {R} {history : List (Registration D E)}

theorem codecId_withSlot (d : BoxDecoder) (s : Slot.State Packet) :
    (d.withSlot s).codecId = d.codecId := by
  cases d <;> rfl

/-- No call changes the name of a decoder. -/
theorem codecId_final (d : BoxDecoder) (ops : List DecoderOp) :
    (decoderMachine.final d ops).codecId = d.codecId := by
  refine decoderMachine.final_invariant (I := fun d' => d'.codecId = d.codecId) ?_ rfl ops
  intro d' op h
  show (d'.call op).2.codecId = d.codecId
  rw [d'.call_state op, codecId_withSlot, h]

/-- The parameters that an encoder reports are its parameters already. -/
theorem newEncoder_outputOf (law : Law) (params : CodecParameters) :
    law.newEncoder K (outputOf params) = law.newEncoder K params := by
  cases law <;> rfl

theorem encoder_codecId_eq (e : BoxEncoder) : e.codecId = e.outputParams.codecId := by
  cases e <;> rfl

theorem makeEncoder_outputOf {law : Law} {params : CodecParameters} {e : BoxEncoder}
    (h : law.makeEncoder K params = .ok e) : law.makeEncoder K (outputOf params) = .ok e := by
  obtain ⟨-, hch, hs16, -⟩ := Law.makeEncoder_spec h
  have hch' : (outputOf params).channels.getD 1 ≠ 0 := hch
  have hs16' : (outputOf params).sampleFormat.getD .s16 = .s16 := rfl
  rw [law.makeEncoder_eq, if_neg hch, if_neg (not_not_intro hs16)] at h
  rw [law.makeEncoder_eq, if_neg hch', if_neg (not_not_intro hs16'), newEncoder_outputOf, h]

end Register

/-! ### A concrete registry -/

section Plain

variable {D E β : Type} (factory : CodecInfo D E → Option (CodecParameters → Outcome β))

/-- The first factory under the codec id. -/
def firstIn (infos : List (CodecInfo D E)) (params : CodecParameters) : Outcome β :=
  match infos.findSome? fun info => if info.id = params.codecId then factory info else none with
  | some f => f params
  | none => .error (.err (.unsupported "codec not found"))

theorem firstIn_spec (infos : List (CodecInfo D E)) :
    FirstOf infos factory (firstIn factory infos) where
  of_first params info f hfind hf := by
    obtain ⟨hid, before, after, rfl, hbefore⟩ := List.find?_eq_some_iff_append.1 hfind
    have hnone : before.findSome? (fun info =>
        if info.id = params.codecId then factory info else none) = none := by
      rw [List.findSome?_eq_none_iff]
      intro other hother
      exact if_neg (by simpa using hbefore other hother)
    unfold firstIn
    rw [List.findSome?_append, hnone, Option.none_or, List.findSome?_cons,
      if_pos (of_decide_eq_true hid), hf]
  of_other params := by
    unfold firstIn
    cases hfirst : infos.findSome? fun info =>
      if info.id = params.codecId then factory info else none with
    | none => exact .inr ⟨_, rfl⟩
    | some f =>
      obtain ⟨info, hinfo, hf⟩ := List.exists_of_findSome?_eq_some hfirst
      split_ifs at hf with hid
      exact .inl ⟨info, hinfo, hid, f, hf, rfl⟩

end Plain

/-- A registry for concrete histories. -/
def CodecRegistry.plain (D E : Type) : CodecRegistry D E where
  State := List (CodecInfo D E)
  new := []
  register reg info := reg ++ [info]
  hasDecoder reg id := reg.any fun info => info.id = id && info.decoder.isSome
  hasEncoder reg id := reg.any fun info => info.id = id && info.encoder.isSome
  firstDecoder := firstIn CodecInfo.decoder
  firstEncoder := firstIn CodecInfo.encoder
  infos reg := reg
  infos_new := rfl
  infos_register _ _ := rfl
  hasDecoder_iff _ _ := by simp
  hasEncoder_iff _ _ := by simp
  firstDecoder_spec := firstIn_spec _
  firstEncoder_spec := firstIn_spec _

/-- A plain registry in which other crates have no factories. -/
abbrev plainRegistry : CodecRegistry (DynDecoder Empty) (DynEncoder Empty) := .plain _ _

/-- A stereo A-law encoder, found under the third name of the law. -/
def stereoEncoder : BoxEncoder := .alaw ⟨outputOf { stereo with codecId := "g711a" }, ⟨1, 8000⟩, []⟩

end G711
