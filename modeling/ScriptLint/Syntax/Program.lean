import ScriptLint.Syntax.Node

namespace ScriptLint

structure Program where
  root : Node
  /-- What the names of the outermost scope are bound to. -/
  globals : List (String × DeclarationSite)
deriving Inhabited

namespace Program

def declarationAt? (p : Program) (site : DeclarationSite) : Option Node :=
  p.root.find? fun n => n.kind.name == site.kind && n.span == site.span

def global? (p : Program) (name : String) : Option DeclarationSite :=
  (p.globals.find? (·.1 == name)).map Prod.snd

/-- The file as it stands before names are resolved. -/
def unresolved (p : Program) : Program := ⟨p.root.unresolved, p.globals⟩

theorem mem_nodes_of_declarationAt? {p : Program} {site : DeclarationSite} {n : Node}
    (h : p.declarationAt? site = some n) : n ∈ p.root.nodes := by
  rw [declarationAt?, Node.find?_eq_find?_nodes] at h
  exact List.mem_of_find?_eq_some h

end Program

abbrev Parser := Text → Except (List String) Program

end ScriptLint
