import LdapCodec.Ber.Element
import LdapCodec.Text.Decimal

namespace LdapCodec.Ber

def TagClass.key : TagClass → String
  | universal => "Universal"
  | application => "Application"
  | contextSpecific => "ContextSpecific"
  | privateUse => "Private"

def commaList (items : List (List Char)) : List Char := [','].intercalate items

def Tag.jsonText (tag : Tag) : List Char :=
  let constructed := if tag.constructed then "true" else "false"
  "\x7b\"class\":\"".toList ++ tag.cls.key.toList ++ "\",\"constructed\":".toList ++
    constructed.toList ++ ",\"number\":".toList ++ Decimal.digits tag.number.toNat ++ ['\x7d']

namespace Element

def jsonObject (tag : Tag) (kind : String) (items : List (List Char)) : List Char :=
  "\x7b\"tag\":".toList ++ tag.jsonText ++ ",\"content\":\x7b\"".toList ++ kind.toList ++
    "\":[".toList ++ commaList items ++ "]\x7d\x7d".toList

mutual

def jsonText : Element → List Char
  | primitive cls number content =>
    jsonObject ⟨cls, false, number⟩ "Primitive" (content.map fun b ↦ Decimal.digits b.toNat)
  | constructed cls number children =>
    jsonObject ⟨cls, true, number⟩ "Constructed" (jsonTexts children)

def jsonTexts : List Element → List (List Char)
  | [] => []
  | e :: es => jsonText e :: jsonTexts es

end

end Element

end LdapCodec.Ber
