import LdapCodec.Extension

namespace LdapCodec

open Json

/-- How structured values of one identifier become elements and envelopes, and back. -/
structure Registry.Form (E T : Type) where
  decode : E → Value → (strict : Bool) → Except DecodeError T
  rebuild : E → Value → (strict : Bool) → Except DecodeError E
  write? : E → Option Value

structure Registry.Entry (E T : Type) where
  oid : String
  name : String
  decode : E → Except DecodeError T
  form : Option (Registry.Form E T)

/-- What is known of the envelopes of one kind, by identifier. Envelopes of unknown
identifiers are kept as they are. -/
structure Registry (E T : Type) where
  generic : E → T
  entries : List (Registry.Entry E T)
  distinct : (entries.map Registry.Entry.oid).Nodup

namespace Registry

variable {E T H : Type}

def empty (generic : E → T) : Registry E T := ⟨generic, [], .nil⟩

def find? (r : Registry E T) (oid : String) : Option (Entry E T) :=
  r.entries.find? fun entry ↦ entry.oid == oid

theorem oid_ne_of_find?_eq_none {r : Registry E T} {oid : String} (h : r.find? oid = none) :
    ∀ entry ∈ r.entries, entry.oid ≠ oid := by
  intro entry he
  have hn := List.find?_eq_none.1 h entry he
  simpa using hn

def insert (r : Registry E T) (entry : Entry E T) : Except Refusal (Registry E T) :=
  match h : r.find? entry.oid with
  | some _ => .error (.registered entry.oid)
  | none => .ok
      { r with
        entries := r.entries ++ [entry]
        distinct := by
          rw [List.map_append, List.nodup_append]
          refine ⟨r.distinct, by simp, ?_⟩
          intro a ha b hb
          obtain ⟨x, hx, rfl⟩ := List.mem_map.1 ha
          have hne := oid_ne_of_find?_eq_none h x hx
          simp only [List.map_cons, List.map_nil, List.mem_singleton] at hb
          rwa [hb] }

def name? (r : Registry E T) (oid : String) : Option String := (r.find? oid).map Entry.name

def isRegistered (r : Registry E T) (oid : String) : Bool := (r.find? oid).isSome

def size (r : Registry E T) : Nat := r.entries.length

def isEmpty (r : Registry E T) : Bool := r.entries.isEmpty

def oids (r : Registry E T) : List String :=
  (r.entries.map Entry.oid).mergeSort fun a b ↦ decide (a ≤ b)

def describe (r : Registry E T) : String :=
  let list := ", ".intercalate (r.oids.map Quoted.quote)
  s!"Registry \x7b oids: [{list}] \x7d"

variable [Envelope E H]

def Entry.ofExtension {α : Type} (x : Extension E H α) (wrap : Typed H α → T) : Entry E T where
  oid := x.oid
  name := x.name
  decode e := (x.decode e).map wrap
  form := some
    { decode := fun header v strict ↦ (x.ofJson header v strict).map wrap
      rebuild := fun header v strict ↦ (x.ofJson header v strict).map x.toEnvelope
      write? := fun e ↦
        match x.decode e with
        | .ok t => x.toJson? t
        | .error _ => none }

def entry? (r : Registry E T) (e : E) : Option (Entry E T) := (Envelope.oid? e).bind r.find?

def form? (r : Registry E T) (e : E) : Except DecodeError (Form E T) :=
  match (r.entry? e).bind Entry.form with
  | some form => .ok form
  | none =>
    let oid := (Envelope.oid? e).getD "<no OID>"
    .error (.decoding s!"No structured value decoder for {Envelope.kind E} {oid}")

def decode (r : Registry E T) (e : E) : Except DecodeError T :=
  match r.entry? e with
  | some entry => entry.decode e
  | none => .ok (r.generic e)

def ofJson (r : Registry E T) (header : E) (v : Value) (strict : Bool) : Except DecodeError T := do
  (← r.form? header).decode header v strict

def rebuild (r : Registry E T) (header : E) (v : Value) (strict : Bool) : Except DecodeError E := do
  (← r.form? header).rebuild header v strict

def toJson? (r : Registry E T) (e : E) : Option Value :=
  ((r.entry? e).bind Entry.form).bind (·.write? e)

variable [Documented E]

def toDocument (r : Registry E T) (e : E) : Value :=
  let name := (Envelope.oid? e).map fun oid ↦ (r.name? oid).getD oid
  let structured := if (Envelope.value? e).isSome then r.toJson? e else none
  Document.ofEnvelope e name structured

def envelopeOfDocument (r : Registry E T) (strict : Bool) (document : Value) :
    Except DecodeError E := do
  let parsed ← Document.parse (E := E) strict document
  match parsed.structured with
  | some v => r.rebuild parsed.envelope v strict
  | none => .ok parsed.envelope

def ofParsed (r : Registry E T) (strict : Bool) (parsed : Parsed E) : Except DecodeError T :=
  match parsed.structured with
  | some v => r.ofJson parsed.envelope v strict
  | none => r.decode parsed.envelope

def ofDocument (r : Registry E T) (strict : Bool) (document : Value) : Except DecodeError T := do
  let parsed ← Document.parse (E := E) strict document
  r.ofParsed strict parsed

end Registry

end LdapCodec
