/-!
# Options

The options of a whole project, and how the option of a single component overrides them.
-/

namespace TemplateMarkup

/-- The options of a project. -/
structure Options where
  /-- Whether the layout of templates is kept as it was written. -/
  preserveWhitespaces : Bool := false
  deriving DecidableEq

namespace Options

/-- A choice if one was made, and a default if not. -/
def choiceOr (choice : Option Bool) (default : Bool) : Bool := choice.getD default

/-- The options with the given choice; layout is not kept unless that is asked for. -/
def ofChoice (choice : Option Bool) : Options := ⟨choiceOr choice false⟩

/-- Whether layout is kept in a component with the given choice of its own. -/
def preserves (o : Options) (component : Option Bool) : Bool :=
  choiceOr component o.preserveWhitespaces

/-- Whether the templates of a component are trimmed. -/
def trims (o : Options) (component : Option Bool) : Bool := !o.preserves component

/-- Whether nothing differs from the defaults. -/
def isDefault (o : Options) : Bool := o = {}

end Options

end TemplateMarkup
