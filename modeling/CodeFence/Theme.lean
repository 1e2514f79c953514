import CodeFence.Text.Basic

set_option autoImplicit false

namespace CodeFence

structure ThemePair where
  dark : Text := "vitesse-black".toList
  light : Text := "rose-pine-dawn".toList
deriving DecidableEq, Repr

def defaultStem : Text := "--h-".toList

structure StyleRule where
  selector : Text
  settings : List (Text × Text)
deriving DecidableEq, Repr

def StyleRule.text (rule : StyleRule) : Text :=
  rule.selector ++ " \x7b\n".toList
    ++ rule.settings.flatMap (fun setting => "  ".toList ++ setting.1 ++ ": var(".toList ++ setting.2 ++ ");\n".toList)
    ++ "\x7d\n".toList

namespace ThemePair

def blockRule (selector name : Text) : StyleRule :=
  ⟨selector ++ " pre".toList, [("color".toList, name), ("background-color".toList, name ++ "-bg".toList)]⟩

def tokenRule (selector name : Text) : StyleRule :=
  ⟨selector ++ " pre span".toList,
    [("color".toList, name), ("font-style".toList, name ++ "-font-style".toList),
      ("font-weight".toList, name ++ "-font-weight".toList), ("text-decoration".toList, name ++ "-text-decoration".toList)]⟩

def rules (themes : ThemePair) (stem darkSelector lightSelector : Text) : List StyleRule :=
  [(darkSelector, stem ++ themes.dark), (lightSelector, stem ++ themes.light)].flatMap fun side =>
    [blockRule side.1 side.2, tokenRule side.1 side.2]

def stylesheet (themes : ThemePair) (stem darkSelector lightSelector : Text) : Text :=
  (themes.rules stem darkSelector lightSelector).flatMap StyleRule.text

end ThemePair
end CodeFence
