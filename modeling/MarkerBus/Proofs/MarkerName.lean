import MarkerBus.Proofs.MarkerDirectory

namespace MarkerBus.Marker

variable {text : String} {texts : List String} {message other : Message} {instant : Instant}

theorem encode_eq_ok_iff :
    encode message = .ok text ↔ message.instant.Valid ∧ text = name message := by
  constructor
  · intro encoded
    cases checked : message.instant.validate with
    | error defect =>
        rw [encode_eq_error checked] at encoded
        cases encoded
    | ok _ =>
        have valid := Instant.validate_eq_ok_iff.mp checked
        rw [encode_eq_ok valid] at encoded
        cases encoded
        exact ⟨valid, rfl⟩
  · rintro ⟨valid, rfl⟩
    exact encode_eq_ok valid

theorem decode_eq_some_iff_encode : decode text = some message ↔ encode message = .ok text :=
  decode_eq_some_iff.trans encode_eq_ok_iff.symm

theorem encode_injective (left : encode message = .ok text) (right : encode other = .ok text) :
    message = other := by
  have both := decode_eq_some_iff_encode.mpr left
  rw [decode_eq_some_iff_encode.mpr right] at both
  exact (Option.some.inj both).symm

theorem encodeAll_eq_ok_iff :
    encodeAll instant = .ok texts ↔ instant.Valid ∧ texts = names instant := by
  constructor
  · intro encoded
    cases checked : instant.validate with
    | error defect =>
        simp only [encodeAll, checked] at encoded
        cases encoded
    | ok _ =>
        have valid := Instant.validate_eq_ok_iff.mp checked
        rw [encodeAll_eq_ok valid] at encoded
        cases encoded
        exact ⟨valid, rfl⟩
  · rintro ⟨valid, rfl⟩
    exact encodeAll_eq_ok valid

theorem mem_names_iff (valid : instant.Valid) :
    text ∈ names instant ↔ ∃ phase, decode text = some ⟨instant, phase⟩ := by
  simp only [names, List.mem_map, decode_eq_some_iff]
  constructor
  · intro given
    obtain ⟨phase, _, rfl⟩ := given
    exact ⟨phase, valid, rfl⟩
  · intro given
    obtain ⟨phase, _, rfl⟩ := given
    exact ⟨phase, phase.mem_all, rfl⟩

/-- Decoding accepts the names that encoding can produce and no others, and takes
each one back to the only message that it was made of. -/
theorem decode_inverts_encode :
    (∀ text message, decode text = some message ↔
      message.instant.validate = .ok () ∧ encode message = .ok text) ∧
    (∀ text, (∃ message, decode text = some message) ↔ ∃ instant phase,
      instant.validate = .ok () ∧ encode ⟨instant, phase⟩ = .ok text) ∧
    (∀ message : Message, message.instant.validate = .ok () →
      ∃ text, encode message = .ok text ∧ decode text = some message) ∧
    (∀ text message other, encode message = .ok text → encode other = .ok text →
      message = other) ∧
    (∀ instant, instant.validate = .ok () ↔ ∃ texts, encodeAll instant = .ok texts) ∧
    ∀ instant texts, encodeAll instant = .ok texts →
      ∀ text, text ∈ texts ↔ ∃ phase, decode text = some ⟨instant, phase⟩ := by
  have exactly (text : String) (message : Message) : decode text = some message ↔
      message.instant.validate = .ok () ∧ encode message = .ok text := by
    rw [decode_eq_some_iff_encode, Instant.validate_eq_ok_iff]
    exact ⟨fun encoded => ⟨(encode_eq_ok_iff.mp encoded).1, encoded⟩, And.right⟩
  refine ⟨exactly, ?_, ?_, fun _ _ _ => encode_injective, ?_, ?_⟩
  · intro text
    constructor
    · rintro ⟨message, decoded⟩
      exact ⟨message.instant, message.phase, (exactly text message).mp decoded⟩
    · rintro ⟨instant, phase, made⟩
      exact ⟨⟨instant, phase⟩, (exactly text _).mpr made⟩
  · intro message checked
    have valid := Instant.validate_eq_ok_iff.mp checked
    exact ⟨name message, encode_eq_ok valid, decode_eq_some_iff.mpr ⟨valid, rfl⟩⟩
  · intro instant
    rw [Instant.validate_eq_ok_iff]
    constructor
    · intro valid
      exact ⟨names instant, encodeAll_eq_ok valid⟩
    · rintro ⟨texts, encoded⟩
      exact (encodeAll_eq_ok_iff.mp encoded).1
  · intro instant texts encoded text
    obtain ⟨valid, rfl⟩ := encodeAll_eq_ok_iff.mp encoded
    exact mem_names_iff valid

/-- The names of an instant that ends like a marker name itself. -/
theorem dotted_name_inverts :
    Instant.validate ".é\x00.completed" = .ok () ∧
    encodeAll ".é\x00.completed" = .ok [".é\x00.completed.inflight", ".é\x00.completed.aborted",
      ".é\x00.completed.completed"] ∧
    (∃ phase, decode ".é\x00.completed.aborted" = some ⟨".é\x00.completed", phase⟩) ∧
    (∃ text, encode ⟨".é\x00.completed", .inflight⟩ = .ok text ∧
      decode text = some ⟨".é\x00.completed", .inflight⟩) ∧
    encode ⟨".é\x00", .completed⟩ = .ok ".é\x00.completed" ∧
    decode ".é\x00.completed" = some ⟨".é\x00", .completed⟩ := by
  obtain ⟨exactly, _, decodes, _, _, names⟩ := decode_inverts_encode
  have valid : Instant.validate ".é\x00.completed" = .ok () := by rfl
  have frontValid : Instant.validate ".é\x00" = .ok () := by rfl
  have encoded : encodeAll ".é\x00.completed" = .ok [".é\x00.completed.inflight",
      ".é\x00.completed.aborted", ".é\x00.completed.completed"] := by rfl
  have front : encode ⟨".é\x00", .completed⟩ = .ok ".é\x00.completed" := by rfl
  exact ⟨valid, encoded, (names _ _ encoded _).mp (by simp), decodes ⟨_, .inflight⟩ valid, front,
    (exactly _ _).mpr ⟨frontValid, front⟩⟩

end MarkerBus.Marker
