import Mathlib.Data.List.TakeWhile
import RpcGateway.Echo.Server
import RpcGateway.Proofs.Backend.Routes
import RpcGateway.Proofs.Http.Metadata
import RpcGateway.Proofs.Text.Utf8

/-!
The paths of calls. A path is printed from the names in a registry and from those in a pool, and
read by the server that is called. For names made of identifiers all three agree, so a call of a
loaded method is received as one of that method.
-/
namespace RpcGateway
open Http Rpc Proto Schema

/-! ## Identifiers -/

namespace Schema

def isLetter (c : Char) : Bool := c.isAlpha || c = '_'

def isWordChar (c : Char) : Bool := isLetter c || c.isDigit

/-- Whether a text is a letter or an underscore, followed by letters, digits and underscores. -/
def isIdentifier (s : String) : Bool :=
  match s.toList with
  | [] => false
  | c :: cs => isLetter c && cs.all isWordChar

/-- Identifiers with dots between them. -/
inductive IsDotted : String → Prop
  | single {s : String} (h : isIdentifier s = true) : IsDotted s
  | within {scope s : String} (hs : IsDotted scope) (h : isIdentifier s = true) :
      IsDotted (scope ++ "." ++ s)

/-- A file whose package is empty or made of identifiers, as are the names of services and methods.
-/
structure FileDecl.Identified (d : FileDecl) : Prop where
  package : d.package = "" ∨ IsDotted d.package
  services : ∀ s ∈ d.services, isIdentifier s.name = true
  methods : ∀ s ∈ d.services, ∀ m ∈ s.methods, isIdentifier m.name = true

theorem isIdentifier_iff {s : String} : isIdentifier s = true ↔
    ∃ c cs, s.toList = c :: cs ∧ isLetter c = true ∧ ∀ d ∈ cs, isWordChar d = true := by
  unfold isIdentifier
  split
  · next htext => simp [htext]
  · next first rest htext => simp [htext]

/-- A character that names made of identifiers may have. -/
def isNameChar (c : Char) : Bool := isWordChar c || c = '.'

theorem isNameChar_of_isIdentifier {s : String} (h : isIdentifier s = true) :
    ∀ c ∈ s.toList, isNameChar c = true := by
  obtain ⟨first, rest, htext, hfirst, hrest⟩ := isIdentifier_iff.mp h
  rw [htext, List.forall_mem_cons]
  constructor
  · rw [isNameChar, isWordChar, hfirst, Bool.true_or, Bool.true_or]
  · intro c hc
    rw [isNameChar, hrest c hc, Bool.true_or]

namespace IsDotted

theorem isNameChar {s : String} (h : IsDotted s) : ∀ c ∈ s.toList, isNameChar c = true := by
  induction h with
  | single h => exact isNameChar_of_isIdentifier h
  | within _ h ih =>
    intro c hc
    rw [String.toList_append, String.toList_append, List.mem_append, List.mem_append] at hc
    rcases hc with (hc | hc) | hc
    · exact ih c hc
    · rw [List.mem_singleton.mp hc]
      decide
    · exact isNameChar_of_isIdentifier h c hc

/-- Names made of identifiers begin with a letter or an underscore. -/
theorem exists_first {s : String} (h : IsDotted s) :
    ∃ c cs, s.toList = c :: cs ∧ isLetter c = true := by
  induction h with
  | single h =>
    obtain ⟨c, cs, htext, hc, -⟩ := isIdentifier_iff.mp h
    exact ⟨c, cs, htext, hc⟩
  | within _ _ ih =>
    obtain ⟨c, cs, htext, hc⟩ := ih
    exact ⟨c, _, by rw [String.toList_append, String.toList_append, htext]; rfl, hc⟩

theorem not_isAbsolute {s : String} (h : IsDotted s) : isAbsolute s = false := by
  obtain ⟨c, cs, htext, hc⟩ := h.exists_first
  have hne : c ≠ '.' := by
    rintro rfl
    exact absurd hc (by decide)
  rw [isAbsolute, htext]
  simpa using hne

end IsDotted

/-- The full names of services are made of identifiers. -/
theorem FileDecl.Identified.isDotted {d : FileDecl} (h : d.Identified) {s : ServiceDecl}
    (hs : s ∈ d.services) : IsDotted (Proto.within d.package s.name) := by
  unfold Proto.within
  split
  · exact .single (h.services s hs)
  · next hsome =>
    have hpackage : d.package ≠ "" := fun he => hsome (String.isEmpty_iff.mpr he)
    exact .within (h.package.resolve_left hpackage) (h.services s hs)

end Schema

/-! ## Paths as bytes -/

/-- Names made of identifiers, and the slashes between them, need no escape in a path. -/
theorem isPathByte_of_mem {s : String} (h : ∀ c ∈ s.toList, isNameChar c = true ∨ c = '/') :
    ∀ b ∈ utf8 s, isPathByte b = true := by
  have hlow : ∀ n < 128, (isNameChar (Char.ofNat n) = true ∨ Char.ofNat n = '/') →
      isPathByte n.toUInt8 = true := by decide
  intro b hb
  by_cases hascii : b < 0x80
  · have hpath := hlow b.toNat hascii (h _ (Text.char_mem_of_byte_mem hascii hb))
    rwa [show b.toNat.toUInt8 = b from UInt8.ofNat_toNat] at hpath
  · rw [isPathByte, decide_eq_true (UInt8.not_lt.mp hascii), Bool.or_true]

/-- A text of bytes that need no escape is a path as it stands. -/
theorem parse?_of_isPathByte {s : String} (h : ∀ b ∈ utf8 s, isPathByte b = true) :
    Target.parse? (utf8 s) = some ⟨utf8 s, none⟩ := by
  have hmark : isPathByte question = false ∧ isPathByte hash = false := by decide
  have hwhole : (utf8 s).takeWhile (fun b => b ≠ question && b ≠ hash) = utf8 s := by
    rw [List.takeWhile_eq_self_iff]
    intro b hb
    rw [Bool.and_eq_true, decide_eq_true_eq, decide_eq_true_eq]
    constructor
    · rintro rfl
      exact Bool.false_ne_true (hmark.1.symm.trans (h _ hb))
    · rintro rfl
      exact Bool.false_ne_true (hmark.2.symm.trans (h _ hb))
  rw [Target.parse?, hwhole, List.drop_length, List.all_eq_true.mpr h, ofUtf8?_utf8]
  rfl

/-- The server cuts a path where it was put together, if the name of the service has no slash. -/
theorem Echo.methodOfPath?_utf8 (pool : Pool) {service : String} (h : '/' ∉ service.toList)
    (name : String) :
    methodOfPath? pool (utf8 ("/" ++ service ++ "/" ++ name)) = pool.method? service name := by
  have hbytes : utf8 ("/" ++ service ++ "/" ++ name) =
      0x2F :: (utf8 service ++ 0x2F :: utf8 name) := by
    rw [utf8_append, utf8_append, utf8_append]
    simp [show utf8 "/" = [0x2F] from rfl]
  have hcut : (utf8 service ++ 0x2F :: utf8 name).takeWhile (· ≠ slash) = utf8 service := by
    rw [List.takeWhile_append_of_pos]
    · simp [slash, show ascii '/' = 0x2F from rfl]
    · intro b hb
      rw [decide_eq_true_eq]
      rintro rfl
      exact h (Text.char_mem_of_byte_mem (by decide) hb)
  rw [hbytes, methodOfPath?]
  simp only [hcut, List.drop_left, ofUtf8?_utf8]

namespace Backend

/-- A loaded method and a method of the pool that stand for each other: one of the same names, found
for the loaded method and found again by its path. -/
structure Corresponds (pool : Pool) (m : Method) (t : MethodType) : Prop where
  service : t.service = m.serviceFullName
  name : t.name = m.name
  found : methodType pool m = .ok t
  printed : t.path = m.path
  sent : pathOf t = .ok (utf8 m.path)
  /-- A call asks a server for nothing but this path. -/
  asked : ∀ b b' : Backend, b.notReady = b'.notReady →
    (∀ q : Backend.Request, q.path = utf8 m.path → b.call q = b'.call q) →
    b.proxyHandler pool t = b'.proxyHandler pool t
  received : Echo.methodOfPath? pool (utf8 m.path) = some t

/-- A path that is made of identifiers can be sent. -/
theorem pathOf_of_names {t : MethodType} (hservice : IsDotted t.service)
    (hname : isIdentifier t.name = true) : pathOf t = .ok (utf8 t.path) := by
  have hchars : ∀ c ∈ t.path.toList, isNameChar c = true ∨ c = '/' := by
    intro c hc
    simp only [MethodType.path, String.toList_append, List.mem_append] at hc
    rcases hc with ((hc | hc) | hc) | hc
    · exact .inr (List.mem_singleton.mp hc)
    · exact .inl (hservice.isNameChar c hc)
    · exact .inr (List.mem_singleton.mp hc)
    · exact .inl (isNameChar_of_isIdentifier hname c hc)
  rw [pathOf, parse?_of_isPathByte (isPathByte_of_mem hchars)]

section Loaded
variable {files : List FileDecl} {pool : Pool} (hlink : Pool.link files = .ok pool)
  (hnames : ∀ d ∈ files, d.Identified)
include hlink hnames

theorem exists_corresponds {f : File} (hdecl : f.decl ∈ files) (hresolved : f.Resolved) {m : Method}
    (hm : m ∈ f.methods) : ∃ t, Corresponds pool m t := by
  obtain ⟨s, hs, hmethod, hfull⟩ := hresolved.exists_declaration hm
  have hservice : IsDotted m.serviceFullName := by
    rw [hfull]
    exact (hnames f.decl hdecl).isDotted hs
  have hname : isIdentifier m.name = true := (hnames f.decl hdecl).methods s hs m.decl hmethod
  have hkey : (Pool.withoutDot m.serviceFullName, m.name) ∈ files.flatMap methodKeys := by
    rw [withoutDot_of_not_isAbsolute hservice.not_isAbsolute]
    exact List.mem_flatMap.mpr
      ⟨f.decl, hdecl, (keys_methods hresolved).subset (List.mem_map_of_mem hm)⟩
  obtain ⟨t, ht⟩ := Option.isSome_iff_exists.mp ((isSome_method?_iff hlink).mpr hkey)
  obtain ⟨htservice, htname⟩ := (linked_of_link hlink).method? ht
  rw [withoutDot_of_not_isAbsolute hservice.not_isAbsolute] at htservice
  have hprinted : t.path = m.path := by rw [MethodType.path, htservice, htname, Method.path]
  have hsent : pathOf t = .ok (utf8 m.path) :=
    hprinted ▸ pathOf_of_names (htservice ▸ hservice) (htname ▸ hname)
  refine ⟨t, htservice, htname, by rw [methodType, ht], hprinted, hsent, ?_, ?_⟩
  · intro b b' hready hcall
    refine proxyHandler_congr hready fun q hq => hcall q ?_
    exact (Except.ok.inj (hsent.symm.trans hq)).symm
  · have hslash : '/' ∉ m.serviceFullName.toList := fun h =>
      absurd (hservice.isNameChar _ h) (by decide)
    rw [Method.path, Echo.methodOfPath?_utf8 pool hslash, ht]

/-- Whatever of the files is loaded into a registry, in whichever order and however often: for each
loaded method the pool has one with the same path, which can be sent, and which makes the server
that is asked find this very method. No two loaded methods have one path. -/
theorem paths_agree {history : List Operation}
    (hfiles : ∀ op ∈ history, ∀ d ∈ op.files, d ∈ files) :
    let ms := (Registry.empty.after history).methods
    (∀ m ∈ ms, ∃ t, Corresponds pool m t) ∧ (ms.map Method.path).Nodup := by
  intro ms
  have hr : (Registry.empty.after history).Consistent :=
    Registry.kept_consistent.always Registry.consistent_empty history
  have hdrawn : (Registry.empty.after history).DrawnFrom (· ∈ files) :=
    (Registry.kept_drawnFrom _).after hfiles fun _ _ hf => by cases hf
  have hnodup := Registry.nodup_files_after history
  have hstored : ∀ f ∈ (Registry.empty.after history).storedFiles, f.decl ∈ files ∧ f.Resolved := by
    intro f hf
    obtain ⟨path, hget⟩ := Registry.exists_of_mem_storedFiles hnodup hf
    exact ⟨hdrawn path f hget, hr.services path f hget⟩
  have hfound : ∀ m ∈ ms, ∃ t, Corresponds pool m t := by
    intro m hm
    obtain ⟨f, hf, hmem⟩ := List.mem_flatMap.mp hm
    obtain ⟨hdecl, hresolved⟩ := hstored f hf
    exact exists_corresponds hlink hnames hdecl hresolved hmem
  refine ⟨hfound, ?_⟩
  have hdecls : ((Registry.empty.after history).storedFiles.map File.decl).Nodup := by
    apply List.Nodup.of_map FileDecl.name
    rw [List.map_map]
    exact hr.names_storedFiles hnodup ▸ hnodup
  have hsubset : (Registry.empty.after history).storedFiles.map File.decl ⊆ files :=
    List.forall_mem_map.mpr fun f hf => (hstored f hf).1
  have hkeys : (ms.map methodKey).Nodup := nodup_keys_of_files (linked_of_link hlink) hdecls
    hsubset fun f hf => (hstored f hf).2
  -- The server would find two methods of one path as one, of one service and one name.
  refine List.Nodup.map_on (fun m hm m' hm' hpath => ?_) (List.Nodup.of_map _ hkeys)
  obtain ⟨t, ht⟩ := hfound m hm
  obtain ⟨t', ht'⟩ := hfound m' hm'
  have hreceived := ht.received
  rw [hpath, ht'.received] at hreceived
  cases hreceived
  apply List.inj_on_of_nodup_map hkeys hm hm'
  rw [methodKey, methodKey, ← ht.service, ← ht'.service, ← ht.name, ← ht'.name]

end Loaded

/-! ## One service in a package and one in none -/

def plainFile : FileDecl where
  name := "plain.proto"
  messages := [{ name := "M" }]
  services := [⟨"Greeter", [{ name := "Say", input := ".M", output := ".M" }], {}⟩]
  dialect := some implicitDialect

def greeters : List FileDecl := [plainFile, oneMethodFile "a.v1" "Greeter"]

theorem paths_agree_without_package :
    Pool.link greeters = .ok (poolOf greeters) ∧ (∀ d ∈ greeters, d.Identified) ∧
    (∀ op ∈ [Operation.loadAll greeters], ∀ d ∈ op.files, d ∈ greeters) ∧
    (registryOf greeters).methods.map Method.path = ["/Greeter/Say", "/a.v1.Greeter/Say"] ∧
    ∃ t : MethodType, t.path = "/Greeter/Say" ∧ pathOf t = .ok (utf8 "/Greeter/Say") ∧
      Echo.methodOfPath? (poolOf greeters) (utf8 "/Greeter/Say") = some t := by
  have hlink : Pool.link greeters = .ok (poolOf greeters) := rfl
  have hnames : ∀ d ∈ greeters, d.Identified := by
    have hpackage : IsDotted ("a" ++ "." ++ "v1") := .within (.single rfl) rfl
    rw [greeters, List.forall_mem_cons, List.forall_mem_singleton]
    exact ⟨⟨.inl rfl, by decide, by decide⟩, ⟨.inr hpackage, by decide, by decide⟩⟩
  have hfiles : ∀ op ∈ [Operation.loadAll greeters], ∀ d ∈ op.files, d ∈ greeters := by
    intro op hop d hd
    rw [List.mem_singleton.mp hop] at hd
    exact hd
  obtain ⟨hreceived, -⟩ := paths_agree hlink hnames hfiles
  let m : Method := ⟨"Greeter", "Greeter", { name := "Say", input := ".M", output := ".M" },
    ".M", ".M"⟩
  obtain ⟨t, ht⟩ := hreceived m (by decide)
  exact ⟨hlink, hnames, hfiles, by decide, t, ht.printed, ht.sent, ht.received⟩

end Backend

end RpcGateway
