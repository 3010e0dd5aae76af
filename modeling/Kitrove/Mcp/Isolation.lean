import Kitrove.Mcp.Stored

/-! When the text of a stored entry is one entry: the text goes on no further than the value that
starts with it. -/

namespace Kitrove.Mcp

open Jsonc (Value Elem Key Options nest elemsText quote colon openBrace closeBrace)

section Names

variable {name : Bytes} {b : UInt8}

theorem McpServerName.parse_isOk {parsed : McpServerName} (h : McpServerName.parse name = .ok parsed) :
    isPortableMcpServerName name = true := by
  unfold McpServerName.parse at h
  split at h
  · assumption
  · contradiction

theorem portableName_length (h : isPortableMcpServerName name = true) :
    name.length ≤ maxPortableMcpServerNameBytes := by
  simp only [isPortableMcpServerName, Bool.and_eq_true, decide_eq_true_eq] at h
  exact h.1.1.1.1

theorem portableName_bytes (h : isPortableMcpServerName name = true) :
    ∀ b ∈ name, (lowercaseOrDigit b || b == 0x2D) = true := by
  simp only [isPortableMcpServerName, Bool.and_eq_true, List.all_eq_true] at h
  exact h.2

theorem nameByte_plain (h : (lowercaseOrDigit b || b == 0x2D) = true) :
    (b ≠ quote ∧ b ≠ Jsonc.backslash) ∧ escapeByte b = [b] := by
  have hall : ∀ b, (lowercaseOrDigit b || b == 0x2D) = true →
      (b ≠ quote ∧ b ≠ Jsonc.backslash) ∧ escapeByte b = [b] := UInt8.forall_ofNat (by decide +kernel)
  exact hall b h

theorem portableName_plain (h : isPortableMcpServerName name = true) :
    Jsonc.plain name = true := by
  refine List.all_eq_true.mpr fun b hb => ?_
  have hplain := (nameByte_plain (portableName_bytes h b hb)).1
  simpa using hplain

theorem jsonString_portable (h : isPortableMcpServerName name = true) :
    jsonString name = quote :: (name ++ [quote]) := by
  have hescape : name.flatMap escapeByte = name := by
    have hbytes := portableName_bytes h
    clear h
    induction name with
    | nil => rfl
    | cons b name ih =>
      obtain ⟨hb, hbytes⟩ := List.forall_mem_cons.mp hbytes
      rw [List.flatMap_cons, (nameByte_plain hb).2, ih hbytes]
      rfl
  rw [jsonString, hescape]

/-- A key of plain characters with nothing around its colon. -/
def plainKey (name : Bytes) : Key := ⟨name, name, [], []⟩

theorem plainKey_reads {o : Options} (h : Jsonc.plain name = true) : (plainKey name).Reads o where
  literal := Jsonc.literal_of_plain h
  decodes := Jsonc.decode_of_plain h
  before := by simp [plainKey]
  after := by simp [plainKey]

end Names

section Entries

variable {lib : Libraries} {dialect : NativeMcpDialect} {limits : McpParseLimits}
  {input name exact : Bytes} {observed : ObservedMcpDocument lib.parseUrl}
  {entry : ObservedMcpServer lib.parseUrl} {object : List Elem} {v : Value} {d : Nat}

/-- The names of the containers that a document's servers stand in, from the outermost. -/
def containerPath : NativeMcpDialect → List Bytes
  | .openCodeV2 => [ascii "mcp", ascii "servers"]
  | _ => [ascii "mcpServers"]

/-- How deep the parser is when it reads an entry. -/
def entryDepth (dialect : NativeMcpDialect) : Nat := 2 * ((containerPath dialect).length + 1)

theorem parseNativeMcpDocument_entries
    (h : parseNativeMcpDocument lib input dialect limits = .ok observed) :
    parseEntries lib input dialect limits = .ok observed.entries := by
  unfold parseNativeMcpDocument at h
  obtain ⟨validated, hlimits, h⟩ := Except.bind_eq_ok_iff.mp h
  obtain ⟨-, h⟩ := refuseIf_bind_eq_ok.mp h
  obtain ⟨entries, hentries, h⟩ := Except.bind_eq_ok_iff.mp h
  unfold McpParseLimits.validated at hlimits
  obtain ⟨-, hlimits⟩ := refuseIf_bind_eq_ok.mp hlimits
  rw [← Except.ok.inj h, Except.ok.inj hlimits]
  exact hentries

theorem parseNativeMcpDocument_json (hdialect : dialect ≠ .codexCurrent)
    (h : parseNativeMcpDocument lib input dialect limits = .ok observed) :
    parseJsonEntries lib.parseUrl lib.blake3 input dialect limits = .ok observed.entries := by
  have hentries := parseNativeMcpDocument_entries h
  cases dialect with
  | codexCurrent => contradiction
  | claudeCurrent => exact hentries
  | openCodeV2 => exact hentries

/-- The properties that a document's entries come from. -/
theorem parseJsonEntries_eq_ok {entries : List (ObservedMcpServer lib.parseUrl)}
    (h : parseJsonEntries lib.parseUrl lib.blake3 input dialect limits = .ok entries) :
    ∃ document root servers, Jsonc.parse (jsonOptions dialect) input = some document ∧
      document.value = .object root ∧ validateJsonTree document.value limits = .ok () ∧
      serversObject dialect root = .ok servers ∧
      List.Forall₂ (fun property entry =>
        jsonEntry lib.parseUrl lib.blake3 dialect limits property = .ok entry)
        (properties (servers.getD [])) entries := by
  unfold parseJsonEntries at h
  split at h
  · contradiction
  rename_i document hdocument
  obtain ⟨⟨⟩, htree, h⟩ := Except.bind_eq_ok_iff.mp h
  split at h
  · contradiction
  rename_i root hroot
  have hvalue : document.value = .object root := by
    unfold asObject at hroot
    split at hroot
    · rename_i object hobject
      rw [hobject, Option.some.inj hroot]
    · contradiction
  obtain ⟨servers, hservers, h⟩ := Except.bind_eq_ok_iff.mp h
  refine ⟨document, root, servers, hdocument, hvalue, htree, hservers, ?_⟩
  cases servers with
  | none =>
    obtain rfl := Except.ok.inj h
    exact .nil
  | some servers =>
    obtain ⟨-, h⟩ := refuseIf_bind_eq_ok.mp h
    exact Except.mapM_eq_ok h

theorem jsonEntry_eq_ok {property : Bytes × Value}
    (h : jsonEntry lib.parseUrl lib.blake3 dialect limits property = .ok entry) :
    ∃ portability, entry = observedEntry lib.blake3 property.1 property.2.text dialect portability ∧
      ∀ projection, portability = .portable projection →
        isPortableMcpServerName property.1 = true := by
  unfold jsonEntry at h
  obtain ⟨-, h⟩ := refuseIf_bind_eq_ok.mp h
  refine ⟨_, (Except.ok.inj h).symm, fun projection hportable => ?_⟩
  split at hportable
  · unfold parseJsonEntry portabilityOf at hportable
    simp only at hportable
    split at hportable
    · rename_i hname _
      exact McpServerName.parse_isOk hname
    all_goals contradiction
  · contradiction

theorem mem_properties {name : Bytes} : (name, v) ∈ properties object ↔
    ∃ key, Elem.member key v ∈ object ∧ key.name = name := by
  unfold properties
  rw [List.mem_filterMap]
  constructor
  · rintro ⟨e, he, heq⟩
    cases e with
    | member key value =>
      obtain ⟨rfl, rfl⟩ := Prod.mk.inj (Option.some.inj heq)
      exact ⟨key, he, rfl⟩
    | piece p => contradiction
    | comma => contradiction
    | item value => contradiction
  · rintro ⟨key, he, rfl⟩
    exact ⟨_, he, rfl⟩

theorem property_reads {o : Options} (h : (Value.object object).Reads o d)
    (hv : (name, v) ∈ properties object) : v.Reads o (d + 2) := by
  obtain ⟨key, hmem, -⟩ := mem_properties.mp hv
  exact (h.object.1 _ hmem).2.2

theorem optionalObject_eq_some {inner : List Elem}
    (h : optionalObject object name = .ok (some inner)) :
    get object name = some (.object inner) := by
  unfold optionalObject at h
  cases hget : get object name with
  | none =>
    rw [hget] at h
    exact absurd (Except.ok.inj h) (by simp)
  | some value =>
    rw [hget] at h
    cases value with
    | object inner' =>
      obtain rfl := Option.some.inj (Except.ok.inj h)
      rfl
    | scalar kind word => contradiction
    | string raw text => contradiction
    | array elems => contradiction

theorem get_mem (h : get object name = some v) : (name, v) ∈ properties object := by
  obtain ⟨⟨name', value⟩, hfind, rfl⟩ := Option.map_eq_some_iff.mp h
  have hname := List.find?_some hfind
  rw [beq_iff_eq] at hname
  rw [← hname]
  exact List.mem_of_find?_eq_some hfind

theorem optionalObject_reads {o : Options} {inner : List Elem}
    (h : (Value.object object).Reads o d) (hinner : optionalObject object name = .ok (some inner)) :
    (Value.object inner).Reads o (d + 2) :=
  property_reads h (get_mem (optionalObject_eq_some hinner))

/-- Each server's value is read as such at the depth of entries. -/
theorem serversObject_reads {o : Options} {root servers : List Elem}
    (h : (Value.object root).Reads o 0)
    (hservers : serversObject dialect root = .ok (some servers))
    (hv : (name, v) ∈ properties servers) : v.Reads o (entryDepth dialect) := by
  cases dialect with
  | openCodeV2 =>
    obtain ⟨mcp, hmcp, hservers⟩ := Except.bind_eq_ok_iff.mp hservers
    cases mcp with
    | none => exact absurd (Except.ok.inj hservers) (by simp)
    | some mcp =>
      have hinner := optionalObject_reads (optionalObject_reads h hmcp) hservers
      exact property_reads hinner hv
  | claudeCurrent => exact property_reads (optionalObject_reads h hservers) hv
  | codexCurrent => exact property_reads (optionalObject_reads h hservers) hv

theorem isolatedEntry_eq_some {projection : McpNativeProjection lib.parseUrl} {document : Bytes}
    (h : isolatedEntry lib dialect name document = some projection) :
    ∃ observed, parseNativeMcpDocument lib document dialect .default = .ok observed ∧
      ∃ entry ∈ observed.entries, entry.nativeName = name ∧
        entry.portability = .portable projection := by
  unfold isolatedEntry at h
  split at h
  · contradiction
  rename_i observed hparse
  split at h
  · contradiction
  rename_i entry hfind
  split at h
  · rename_i projection' hportable
    obtain rfl := Option.some.inj h
    have hname := List.find?_some hfind
    rw [beq_iff_eq] at hname
    exact ⟨observed, hparse, entry, List.mem_of_find?_eq_some hfind, hname, hportable⟩
  · contradiction

theorem boundedNativeName_portable (h : isPortableMcpServerName name = true) :
    boundedNativeName lib.blake3 name = name := by
  have hlength := portableName_length h
  rw [maxPortableMcpServerNameBytes] at hlength
  rw [boundedNativeName, if_pos (by rw [maxNativeNameBytes]; omega)]

/-- A portable entry has the name that its document gives it. -/
theorem portable_entry_name {property : Bytes × Value}
    {projection : McpNativeProjection lib.parseUrl}
    (h : jsonEntry lib.parseUrl lib.blake3 dialect limits property = .ok entry)
    (hportable : entry.portability = .portable projection) :
    isPortableMcpServerName property.1 = true ∧ entry.nativeName = property.1 := by
  obtain ⟨portability, rfl, hname⟩ := jsonEntry_eq_ok h
  have hname := hname projection hportable
  exact ⟨hname, boundedNativeName_portable hname⟩

end Entries

section Alone

variable {lib : Libraries} {dialect : NativeMcpDialect} {name exact : Bytes} {v : Value}

def isolatedDocument : NativeMcpDialect → Bytes → Bytes → Bytes
  | .openCodeV2 => openCodeDocument
  | _ => claudeDocument

/-- The document that holds nothing but one value, under its name. -/
def entryDocument (dialect : NativeMcpDialect) (name : Bytes) (v : Value) : Jsonc.Document :=
  ⟨[], nest ((containerPath dialect ++ [name]).map plainKey) v, [], []⟩

theorem entryDocument_text (hname : isPortableMcpServerName name = true) :
    (entryDocument dialect name v).text = isolatedDocument dialect name v.text := by
  have hclaude : ascii "\x7b\"mcpServers\":\x7b" =
      openBrace :: ((plainKey (ascii "mcpServers")).text ++ [openBrace]) := by decide +kernel
  have hopenCode : ascii "\x7b\"mcp\":\x7b\"servers\":\x7b" =
      openBrace :: ((plainKey (ascii "mcp")).text ++
        openBrace :: ((plainKey (ascii "servers")).text ++ [openBrace])) := by decide +kernel
  have htwo : ascii "\x7d\x7d" = [closeBrace, closeBrace] := by decide
  have hthree : ascii "\x7d\x7d\x7d" = [closeBrace, closeBrace, closeBrace] := by decide
  have hcolon : ascii ":" = [colon] := by decide
  have hkey : (plainKey name).text = jsonString name ++ [colon] := by
    rw [jsonString_portable hname]
    simp [plainKey, Key.text, Jsonc.piecesText]
  have hpieces : Jsonc.piecesText [] = [] := rfl
  cases dialect <;>
    simp [entryDocument, containerPath, nest, Jsonc.Document.text, Value.text, elemsText,
      Elem.text, hkey, hpieces, isolatedDocument, claudeDocument, openCodeDocument, hclaude,
      hopenCode, htwo, hthree, hcolon]

theorem entryDocument_parse (hname : isPortableMcpServerName name = true)
    (hv : v.Reads (jsonOptions dialect) (entryDepth dialect)) :
    Jsonc.parse (jsonOptions dialect) (isolatedDocument dialect name v.text) =
      some (entryDocument dialect name v) := by
  have hplain : ∀ key ∈ (containerPath dialect ++ [name]).map plainKey,
      key.Reads (jsonOptions dialect) := by
    have hpath : ∀ dialect, ∀ part ∈ containerPath dialect, Jsonc.plain part = true := by
      intro dialect
      cases dialect <;> decide +kernel
    intro key hkey
    obtain ⟨part, hpart, rfl⟩ := List.mem_map.mp hkey
    rcases List.mem_append.mp hpart with hpart | hpart
    · exact plainKey_reads (hpath dialect part hpart)
    · rw [List.mem_singleton] at hpart
      rw [hpart]
      exact plainKey_reads (portableName_plain hname)
  have hlength : ((containerPath dialect ++ [name]).map plainKey).length =
      (containerPath dialect).length + 1 := by simp
  have hbound : 2 * ((containerPath dialect).length + 1) ≤ Jsonc.maximumNestingDepth := by
    cases dialect <;> decide
  have hnest := Jsonc.nest_reads (d := 0) hplain (by omega)
    (by rw [Nat.zero_add, hlength]; exact hv)
  rw [← entryDocument_text hname]
  exact Jsonc.parse_doc (Jsonc.document_reads hnest)

theorem entryDocument_servers {document : Jsonc.Document} {root : List Elem}
    {servers : Option (List Elem)} (hdocument : document = entryDocument dialect name v)
    (hroot : document.value = .object root) (hservers : serversObject dialect root = .ok servers) :
    properties (servers.getD []) = [(name, v)] := by
  subst hdocument
  cases dialect <;>
  · obtain rfl := Value.object.inj hroot
    simp [serversObject, optionalObject, get, properties, asObject, plainKey, nest, bind,
      Except.bind] at hservers
    simp [← hservers, properties]

end Alone

section Stored

variable {lib : Libraries} {codec : NativeEntryCodec} {stored : StoredNativeMcpEntry}

/-- Where the value ends that starts with the first byte of an entry's text. -/
def valueEnd (dialect : NativeMcpDialect) (exact : Bytes) : Option Nat :=
  (Jsonc.parseValue (jsonOptions dialect) (entryDepth dialect) (2 * exact.length + 1) exact).map
    fun p => p.1.text.length

/-- A document with one server, which has the stored name and text and is portable. -/
def Capturable (lib : Libraries) (stored : StoredNativeMcpEntry) : Prop :=
  ∃ document observed entry projection,
    parseNativeMcpDocument lib document stored.dialect .default = .ok observed ∧
      observed.entries = [entry] ∧ entry.nativeName = stored.nativeName ∧
      entry.exactEntry = stored.exactEntry ∧ entry.portability = .portable projection

theorem valueEnd_eq_length {dialect : NativeMcpDialect} {exact : Bytes} :
    valueEnd dialect exact = some exact.length ↔
      ∃ v : Value, v.text = exact ∧ v.Reads (jsonOptions dialect) (entryDepth dialect) := by
  constructor
  · intro h
    obtain ⟨⟨v, r⟩, hparse, hlength⟩ := Option.map_eq_some_iff.mp h
    obtain ⟨htext, hreads⟩ := Jsonc.parseValue_reads hparse
    have hr : r = [] := by
      have htotal := congrArg List.length htext
      rw [List.length_append] at htotal
      simp only at hlength
      exact List.length_eq_zero_iff.mp (by omega)
    exact ⟨v, by rw [htext, hr, List.append_nil], hreads⟩
  · rintro ⟨v, rfl, hreads⟩
    have hparse := hreads.2 _ [] (Nat.le_refl _) Jsonc.boundary_nil
    rw [List.append_nil] at hparse
    rw [valueEnd, hparse]
    rfl

theorem capturable_end (hdialect : stored.dialect ≠ .codexCurrent) (h : Capturable lib stored) :
    valueEnd stored.dialect stored.exactEntry = some stored.exactEntry.length := by
  obtain ⟨document, observed, entry, projection, hparse, hentries, -, hexact, -⟩ := h
  have hjson := parseNativeMcpDocument_json hdialect hparse
  obtain ⟨doc, root, servers, hdoc, hroot, -, hservers, hall⟩ := parseJsonEntries_eq_ok hjson
  have hreads := (Jsonc.parse_reads hdoc).2.value
  rw [hroot] at hreads
  have hmem : entry ∈ observed.entries := by rw [hentries]; exact List.mem_singleton_self entry
  obtain ⟨property, hproperty, hentry⟩ := Except.forall₂_of_mem_right hall hmem
  cases servers with
  | none => exact absurd hproperty (by simp [properties])
  | some servers =>
    obtain ⟨portability, heq, -⟩ := jsonEntry_eq_ok hentry
    refine valueEnd_eq_length.mpr ⟨property.2, ?_, serversObject_reads hreads hservers hproperty⟩
    rw [← hexact, heq]
    rfl

theorem capturable_of_end (hdialect : stored.dialect ≠ .codexCurrent) (h : stored.Verified lib)
    (hend : valueEnd stored.dialect stored.exactEntry = some stored.exactEntry.length) :
    Capturable lib stored := by
  obtain ⟨v, hv, hreads⟩ := valueEnd_eq_length.mp hend
  obtain ⟨verified, hverified⟩ := h.isolated
  have hisolated : ∃ projection, isolatedEntry lib stored.dialect stored.nativeName
      (isolatedDocument stored.dialect stored.nativeName stored.exactEntry) = some projection := by
    unfold validateIsolatedPortableEntry isolatedDocuments at hverified
    obtain ⟨documents, hdocuments, hverified⟩ := Except.bind_eq_ok_iff.mp hverified
    obtain ⟨-, hdocuments⟩ := refuseIf_bind_eq_ok.mp hdocuments
    obtain rfl := Except.ok.inj hdocuments
    split at hverified
    · rename_i projection hprojection
      refine ⟨projection, ?_⟩
      cases hcase : stored.dialect with
      | codexCurrent => contradiction
      | claudeCurrent => simpa [hcase, isolatedDocument] using hprojection
      | openCodeV2 => simpa [hcase, isolatedDocument] using hprojection
    · contradiction
  obtain ⟨projection, hisolated⟩ := hisolated
  obtain ⟨observed, hparse, entry, hmem, hname, hportable⟩ := isolatedEntry_eq_some hisolated
  have hjson := parseNativeMcpDocument_json hdialect hparse
  obtain ⟨doc, root, servers, hdoc, hroot, -, hservers, hall⟩ := parseJsonEntries_eq_ok hjson
  obtain ⟨property, -, hentry⟩ := Except.forall₂_of_mem_right hall hmem
  obtain ⟨hportableName, hnamed⟩ := portable_entry_name hentry hportable
  rw [← hnamed, hname] at hportableName
  rw [← hv, entryDocument_parse hportableName hreads] at hdoc
  have hproperties := entryDocument_servers (Option.some.inj hdoc).symm hroot hservers
  rw [hproperties] at hall
  obtain ⟨entry', entries, hentry', hnil, hentries⟩ := List.forall₂_cons_left_iff.mp hall
  rw [List.forall₂_nil_left_iff.mp hnil] at hentries
  have hsame : entry = entry' := by rwa [hentries, List.mem_singleton] at hmem
  obtain ⟨portability, hobserved, -⟩ := jsonEntry_eq_ok hentry'
  refine ⟨_, observed, entry, projection, hparse, by rw [hentries, hsame], hname, ?_, hportable⟩
  rw [hsame, hobserved, ← hv]
  rfl

/-- What storage accepts is one captured entry just when its first value is all of its text, and
what is put into storage can be taken out again just when it fits. -/
theorem storedEntry_isolated_iff (hcodec : codec.Lawful) :
    (∀ text stored, StoredNativeMcpEntry.fromJson lib codec text = .ok stored →
      stored.dialect ≠ .codexCurrent →
      (Capturable lib stored ↔
        valueEnd stored.dialect stored.exactEntry = some stored.exactEntry.length)) ∧
    (∀ dialect documentHash observed stored,
      StoredNativeMcpEntry.new lib dialect documentHash observed = .ok stored →
      ((∃ text, stored.toJson codec = .ok text ∧
          StoredNativeMcpEntry.fromJson lib codec text = .ok stored) ↔
        ∃ encoded, codec.encode stored.persisted = some encoded ∧
          encoded.length < maxStoredNativeMcpBytes)) := by
  constructor
  · intro text stored h hdialect
    exact ⟨capturable_end hdialect,
      capturable_of_end hdialect (StoredNativeMcpEntry.fromJson_verified h)⟩
  · intro dialect documentHash observed stored h
    have hverified := StoredNativeMcpEntry.new_verified h
    rw [← StoredNativeMcpEntry.toJson_eq_ok_iff]
    constructor
    · rintro ⟨text, htext, -⟩
      exact ⟨text, htext⟩
    · rintro ⟨text, htext⟩
      exact ⟨text, htext, StoredNativeMcpEntry.fromJson_toJson hcodec hverified htext⟩

end Stored

section Samples

def sampleEndpoint : Bytes := ascii "https://mcp.example.com/mcp"

def sampleUrl : Url where
  scheme := ascii "https"
  username := []
  password := none
  host := some (.domain (ascii "mcp.example.com"))
  path := ascii "/mcp"
  query := none
  fragment := none
  asStr := sampleEndpoint

def sampleDigest : Digest where
  hex := List.replicate 64 0x30
  valid := validDigest_zeros

def sampleLib : Libraries where
  parseUrl value := if value = sampleEndpoint then some sampleUrl else none
  parseToml _ := none
  blake3 _ := sampleDigest

def sampleServer : Bytes := ascii "\x7b\"type\":\"http\",\"url\":\"https://mcp.example.com/mcp\"\x7d"

/-- A server with a second one, a local command, behind it. -/
def riderServer : Bytes := sampleServer ++ ascii ",\"evil\":\x7b\"command\":\"sh\"\x7d"

def storedOf (exact : Bytes) : StoredNativeMcpEntry :=
  .fromVerified sampleLib .claudeCurrent (ascii "docs") exact (.ofDigest sampleDigest)
    (.ofDigest sampleDigest)

def persistedText (exact : Bytes) : Bytes :=
  ascii "\x7b\n  \"schema_version\": 1,\n  \"format\": \"kitrove-native-mcp-entry/v1\",\n" ++
    ascii "  \"dialect\": \"claude_current\",\n  \"native_name\": \"docs\",\n" ++
    ascii "  \"exact_entry\": " ++ jsonString exact ++
    [ascii "exact_entry_hash", ascii "exact_document_hash", ascii "object_hash"].flatMap
      (fun field => ascii ",\n  \"" ++ field ++ ascii "\": \"" ++
        (ContentHash.ofDigest sampleDigest).bytes ++ ascii "\"") ++ ascii "\n\x7d"

def sampleCodec (exact : Bytes) : NativeEntryCodec where
  encode p := if p = (storedOf exact).persisted then some (persistedText exact) else none
  decode text :=
    if text = persistedText exact ++ [newline] then some (storedOf exact).persisted else none

theorem sampleCodec_lawful (exact : Bytes) : (sampleCodec exact).Lawful := by
  refine ⟨fun p text h => ?_⟩
  simp only [sampleCodec] at h ⊢
  split at h
  · rename_i hp
    rw [← Option.some.inj h, if_pos rfl, hp]
  · simp at h

theorem storedEntry_isolated_iff_sample : Capturable sampleLib (storedOf sampleServer) :=
  ((storedEntry_isolated_iff (sampleCodec_lawful sampleServer)).1 (persistedText sampleServer ++ [newline])
    (storedOf sampleServer) (by decide +kernel) (by decide +kernel)).mpr (by decide +kernel)

/-- Storage accepts the server with the second one behind it, and no document has it as one. -/
theorem storedEntry_rider : ∃ text stored,
    StoredNativeMcpEntry.fromJson sampleLib (sampleCodec riderServer) text = .ok stored ∧
      stored.dialect ≠ .codexCurrent ∧ ¬ Capturable sampleLib stored := by
  refine ⟨persistedText riderServer ++ [newline], storedOf riderServer, by decide +kernel,
    by decide +kernel, fun h => ?_⟩
  have hend := capturable_end (by decide +kernel) h
  have hne : valueEnd (storedOf riderServer).dialect (storedOf riderServer).exactEntry ≠
      some (storedOf riderServer).exactEntry.length := by decide +kernel
  exact hne hend

end Samples

end Kitrove.Mcp
