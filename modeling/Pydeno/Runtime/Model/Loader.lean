import Pydeno.Lib.Dict
import Pydeno.Lib.UrlText
import Pydeno.Wire.Model.Python
/-!
# The module loader

`PythonModuleLoader` (`runtime/loader.rs`): a specifier is resolved to a URL and a
module's source loaded from the URL, each by what is registered and by the Python
callables that may be set. What a callable does is a function here.

The URL parser is a parameter (`UrlParser`), known to follow the standard on the
URLs of static modules.
-/

namespace Pydeno.Runtime.Loader

open Wire (ascii)

/-- Text, as its code points. -/
abbrev Text := List ℕ

/-- `JsErrorBox`: the error's class and its message. -/
structure JsError where
  kind : String
  message : Text
  deriving DecidableEq, Repr

def generic (message : Text) : JsError := ⟨"Error", message⟩

def typeError (message : Text) : JsError := ⟨"TypeError", message⟩

/-- `pydeno://static/` -/
def staticUrl : Text := ascii "pydeno://static/"

/-- **`ModuleSpecifier::parse`**: the URL as the parser writes it, or what is wrong. -/
structure UrlParser where
  parse : Text → Except Text Text
  parse_static (name : Text) : parse (staticUrl ++ name) = .ok (staticUrl ++ UrlText.normal name)

/-- What a call of the resolver comes to. -/
inductive ResolverAnswer where
  | raised (text : Text)
  | none
  | notString (text : Text)
  | resolved (url : Text)
  deriving DecidableEq, Repr

/-- What is extracted as the module's source. -/
inductive Extracted where
  | source (text : Text)
  | notString (text : Text)
  deriving DecidableEq, Repr

/-- What a call of the loader comes to (`call_loader`): an error of the call or of
the check for a coroutine, in full; a result; a coroutine, with what awaiting it
comes to. -/
inductive LoaderAnswer where
  | failed (message : Text)
  | result (value : Extracted)
  | coroutine (awaited : Except Text Extracted)

/-- `RequestedModuleType` -/
inductive RequestedModuleType where
  | none
  | json
  | text
  | bytes
  | other (type : Text)
  deriving DecidableEq, Repr

/-- `ModuleType` -/
inductive ModuleType where
  | javaScript
  | json
  | text
  | bytes
  | other (type : Text)
  deriving DecidableEq, Repr

/-- `ModuleSource` -/
structure ModuleSource where
  moduleType : ModuleType
  code : Text
  specifier : Text
  deriving DecidableEq, Repr

/-- `PythonModuleLoader`, and `terse_guest_errors()`. -/
structure PythonModuleLoader where
  staticModules : Dict Text Text
  resolver : Option (Text → Text → ResolverAnswer)
  loader : Option (Text → LoaderAnswer)
  taskLocals : Bool
  terseGuestErrors : Bool

variable (u : UrlParser) (l : PythonModuleLoader)

/-- `specifier.strip_prefix(p).unwrap_or(specifier)` -/
def stripFront (p specifier : Text) : Text := (specifier.dropPrefix? p).getD specifier

/-- `parse_url` -/
def parseUrl (url : Text) : Except JsError Text :=
  (u.parse url).mapError fun text => ⟨"URIError", text⟩

/-- `add_static_module` -/
def addStaticModule (name source : Text) : PythonModuleLoader :=
  { l with staticModules := l.staticModules.set name source }

/-- `resolve_static` -/
def resolveStatic (specifier : Text) : Option (Except JsError Text) :=
  let bare := stripFront (ascii "static:") specifier
  if (l.staticModules.get? bare).isSome then some (parseUrl u (staticUrl ++ bare)) else none

/-- `static_or_deny` -/
def staticOrDeny (specifier why : Text) : Except JsError Text :=
  (resolveStatic u l specifier).getD <| .error <| generic <|
    if l.terseGuestErrors then ascii "Module resolution denied for " ++ specifier
    else ascii "Module resolution denied for " ++ specifier ++ ascii ". " ++ why

/-- `resolve` -/
def resolve (specifier referrer : Text) : Except JsError Text :=
  let specifier := stripFront (ascii "pydeno://runtime/") specifier
  match l.resolver with
  | none => staticOrDeny u l specifier (ascii "Did you call add_static_module()?")
  | some resolver =>
    match resolver specifier referrer with
    | .raised text =>
      .error (generic (ascii "Module resolution failed for " ++ specifier ++ ascii ": " ++ text))
    | .none =>
      staticOrDeny u l specifier (ascii "Resolver returned None and no static module was found.")
    | .notString text =>
      .error (typeError (ascii "Module resolver must return a string or None: " ++ text))
    | .resolved url =>
      if url.isEmpty then
        staticOrDeny u l specifier
          (ascii "Resolver returned empty string and no static module was found.")
      else parseUrl u url

/-- `module_type_from_request` -/
def moduleTypeFromRequest : RequestedModuleType → ModuleType
  | .json => .json
  | .text => .text
  | .bytes => .bytes
  | .other type => .other type
  | .none => .javaScript

/-- The end of `load`: what the loader's result is extracted to. -/
def extractSource (specifier : Text) (moduleType : ModuleType) :
    Extracted → Except JsError ModuleSource
  | .source text => .ok ⟨moduleType, text, specifier⟩
  | .notString text => .error (typeError (ascii "Module loader must return a string: " ++ text))

/-- `load` -/
def load (specifier : Text) (requested : RequestedModuleType) : Except JsError ModuleSource :=
  let moduleType := moduleTypeFromRequest requested
  match (specifier.dropPrefix? staticUrl).bind l.staticModules.get? with
  | some source => .ok ⟨moduleType, source, specifier⟩
  | none =>
    match l.loader with
    | none =>
      .error (generic (ascii "Module loading denied for " ++ specifier ++
        ascii ". Did you call set_module_loader()?"))
    | some loader =>
      match loader specifier with
      | .failed message => .error (generic message)
      | .result value => extractSource specifier moduleType value
      | .coroutine awaited =>
        if l.taskLocals then
          match awaited with
          | .error text => .error (generic text)
          | .ok value => extractSource specifier moduleType value
        else
          .error (typeError (ascii ("An async module loader cannot be used with a synchronous " ++
            "evaluation (eval_module). Use eval_module_async() instead.")))

/-- An import: the specifier resolved, and what is loaded from there. -/
def importModule (specifier referrer : Text) (requested : RequestedModuleType) :
    Except JsError ModuleSource :=
  (resolve u l specifier referrer).bind fun url => load l url requested

end Pydeno.Runtime.Loader
