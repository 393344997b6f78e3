import Pydeno.Runtime.Model.Loader
/-!
# The module loader: imports of static modules

A name is looked up as it stands when it is resolved, and once more when it is
loaded, as the URL parser left it. The second look-up finds the module that was
meant exactly where both names have the same source, which is so for every name
the parser leaves alone.
-/

namespace Pydeno.Runtime.Loader

open Wire (ascii)

variable {u : UrlParser} {l : PythonModuleLoader}

theorem dropPrefix?_eq_none {p t : Text} (h : ¬p <+: t) : t.dropPrefix? p = none := by
  cases hdrop : t.dropPrefix? p with
  | none => rfl
  | some rest =>
    obtain ⟨front, hfront, hp⟩ := List.dropPrefix?_eq_some_iff.mp hdrop
    exact absurd ⟨rest, by rw [hfront, ← beq_iff_eq.mp hp]⟩ h

theorem stripFront_of_not {p t : Text} (h : ¬p <+: t) : stripFront p t = t := by
  rw [stripFront, dropPrefix?_eq_none h]
  rfl

theorem dropPrefix?_append (p t : Text) : (p ++ t).dropPrefix? p = some t :=
  List.dropPrefix?_eq_some_iff.mpr ⟨p, rfl, BEq.rfl⟩

theorem stripFront_append (p t : Text) : stripFront p (p ++ t) = t := by
  rw [stripFront, dropPrefix?_append]
  rfl

/-- The two ways to import a name. -/
def specifiers (name : Text) : List Text := [name, ascii "static:" ++ name]

/-- Both come to the name itself, where that has no front the resolver strips. -/
theorem bare_of_specifier {name specifier : Text}
    (hruntime : ¬ascii "pydeno://runtime/" <+: name) (hstatic : ¬ascii "static:" <+: name)
    (h : specifier ∈ specifiers name) :
    stripFront (ascii "pydeno://runtime/") specifier = specifier ∧
      stripFront (ascii "static:") specifier = name := by
  simp only [specifiers, List.mem_cons, List.not_mem_nil, or_false] at h
  rcases h with rfl | rfl
  · exact ⟨stripFront_of_not hruntime, stripFront_of_not hstatic⟩
  · refine ⟨stripFront_of_not ?_, stripFront_append _ _⟩
    -- the two fronts differ in their first character
    rintro ⟨rest, hrest⟩
    have hhead := congrArg List.head? hrest
    simp [ascii] at hhead

/-- **Without a resolver**, a name that is registered is resolved to its URL as the
parser writes it, and any other is denied. -/
theorem resolve_static {name specifier referrer : Text} (hresolver : l.resolver = none)
    (hruntime : ¬ascii "pydeno://runtime/" <+: name) (hstatic : ¬ascii "static:" <+: name)
    (h : specifier ∈ specifiers name) : resolve u l specifier referrer =
      if (l.staticModules.get? name).isSome then .ok (staticUrl ++ UrlText.normal name)
      else .error (generic
        (if l.terseGuestErrors then ascii "Module resolution denied for " ++ specifier
        else ascii "Module resolution denied for " ++ specifier ++ ascii ". " ++
          ascii "Did you call add_static_module()?")) := by
  obtain ⟨hfirst, hbare⟩ := bare_of_specifier hruntime hstatic h
  simp only [resolve, hresolver, hfirst, staticOrDeny, resolveStatic, hbare]
  split
  · rw [Option.getD_some, parseUrl, u.parse_static]
    rfl
  · rfl

/-- **Without a loader**, a URL of a static module loads what is registered under
the rest of it. -/
theorem load_static {name : Text} {requested : RequestedModuleType} (hloader : l.loader = none) :
    load l (staticUrl ++ name) requested =
      match l.staticModules.get? name with
      | some source => .ok ⟨moduleTypeFromRequest requested, source, staticUrl ++ name⟩
      | none => .error (generic (ascii "Module loading denied for " ++ (staticUrl ++ name) ++
          ascii ". Did you call set_module_loader()?")) := by
  rewrite [load, dropPrefix?_append, Option.bind_some, hloader]
  cases l.staticModules.get? name <;> rfl

/-- **Imports of static modules.** With no resolver and no loader set, an import of a
registered name, bare or with `static:`, loads that name's source exactly where the
name the parser leaves of it is registered with the same source; so it does for every
name that is plain text to the parser. A name that is not registered is denied. -/
theorem static_imports (hresolver : l.resolver = none) (hloader : l.loader = none)
    {name specifier : Text} (hruntime : ¬ascii "pydeno://runtime/" <+: name)
    (hstatic : ¬ascii "static:" <+: name) (h : specifier ∈ specifiers name)
    (referrer : Text) (requested : RequestedModuleType) :
    (∀ source, l.staticModules.get? name = some source →
      (((∃ found, importModule u l specifier referrer requested = .ok found ∧ found.code = source) ↔
        l.staticModules.get? (UrlText.normal name) = some source) ∧
      (UrlText.Plain name → ∃ found,
        importModule u l specifier referrer requested = .ok found ∧ found.code = source))) ∧
      (l.staticModules.get? name = none → ∃ why, importModule u l specifier referrer requested =
        .error (generic (ascii "Module resolution denied for " ++ specifier ++ why))) := by
  have hresolve : resolve u l specifier referrer = _ :=
    resolve_static hresolver hruntime hstatic h
  refine ⟨?_, ?_⟩
  · intro source hsource
    have himport : importModule u l specifier referrer requested =
        load l (staticUrl ++ UrlText.normal name) requested := by
      rw [importModule, hresolve, hsource]
      rfl
    have hexact : (∃ found, importModule u l specifier referrer requested = .ok found ∧
        found.code = source) ↔ l.staticModules.get? (UrlText.normal name) = some source := by
      rw [himport, load_static hloader]
      cases l.staticModules.get? (UrlText.normal name) with
      | none | some found => simp
    refine ⟨hexact, ?_⟩
    intro hplain
    rw [hexact, hplain.normal_eq]
    exact hsource
  · intro hnone
    rw [importModule, hresolve, hnone]
    cases l.terseGuestErrors with
    | false => exact ⟨_, by simp [Except.bind]; rfl⟩
    | true => exact ⟨[], by simp [Except.bind]⟩

/-- A parser that knows the URLs of static modules only. -/
def staticParser : UrlParser where
  parse url :=
    match url.dropPrefix? staticUrl with
    | some name => .ok (staticUrl ++ UrlText.normal name)
    | none => .error (ascii "relative URL without a base")
  parse_static name := by rw [dropPrefix?_append]

/-- Three modules; the first one's name has a dot segment, the last one's a space. -/
def threeModules : PythonModuleLoader :=
  let empty : PythonModuleLoader := ⟨.empty, none, none, false, false⟩
  let first := addStaticModule empty (ascii "a/../b") (ascii "export default 1")
  let second := addStaticModule first (ascii "b") (ascii "export default 2")
  addStaticModule second (ascii "my module") (ascii "export default 3")

theorem static_imports_plain :
    ∃ found, importModule staticParser threeModules (ascii "static:b") [] .none = .ok found ∧
      found.code = ascii "export default 2" :=
  ((static_imports rfl rfl (by decide +kernel) (by decide +kernel)
    (show ascii "static:b" ∈ specifiers (ascii "b") by decide +kernel) [] .none).1
      (ascii "export default 2") (by decide +kernel)).1.mpr (by decide +kernel)

/-- **Two names meet at one URL, and one name meets no module.** The first name
imports the second one's module, and the third is denied. -/
theorem static_import_of_other :
    importModule staticParser threeModules (ascii "a/../b") [] .none =
        .ok ⟨.javaScript, ascii "export default 2", ascii "pydeno://static/b"⟩ ∧
      importModule staticParser threeModules (ascii "my module") [] .none =
        .error (generic (ascii ("Module loading denied for pydeno://static/my%20module. " ++
          "Did you call set_module_loader()?"))) := by
  constructor
  · rfl
  · rfl

end Pydeno.Runtime.Loader
