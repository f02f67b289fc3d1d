namespace HtmlIds

def fallbackElementType : String := "HTMLElement"

def tagsOfElementTypes : List (String × List String) :=
  [("HTMLAnchorElement", ["a"]),
   ("HTMLAreaElement", ["area"]),
   ("HTMLAudioElement", ["audio"]),
   ("HTMLBaseElement", ["base"]),
   ("HTMLBodyElement", ["body"]),
   ("HTMLBRElement", ["br"]),
   ("HTMLButtonElement", ["button"]),
   ("HTMLCanvasElement", ["canvas"]),
   ("HTMLDataElement", ["data"]),
   ("HTMLDataListElement", ["datalist"]),
   ("HTMLDetailsElement", ["details"]),
   ("HTMLDialogElement", ["dialog"]),
   ("HTMLDivElement", ["div"]),
   ("HTMLDListElement", ["dl"]),
   ("HTMLEmbedElement", ["embed"]),
   ("HTMLFieldSetElement", ["fieldset"]),
   ("HTMLFormElement", ["form"]),
   ("HTMLHeadElement", ["head"]),
   ("HTMLHeadingElement", ["h1", "h2", "h3", "h4", "h5", "h6"]),
   ("HTMLHRElement", ["hr"]),
   ("HTMLHtmlElement", ["html"]),
   ("HTMLIFrameElement", ["iframe"]),
   ("HTMLImageElement", ["img"]),
   ("HTMLInputElement", ["input"]),
   ("HTMLLabelElement", ["label"]),
   ("HTMLLegendElement", ["legend"]),
   ("HTMLLIElement", ["li"]),
   ("HTMLLinkElement", ["link"]),
   ("HTMLMapElement", ["map"]),
   ("HTMLMenuElement", ["menu"]),
   ("HTMLMetaElement", ["meta"]),
   ("HTMLMeterElement", ["meter"]),
   ("HTMLModElement", ["del", "ins"]),
   ("HTMLObjectElement", ["object"]),
   ("HTMLOListElement", ["ol"]),
   ("HTMLOptGroupElement", ["optgroup"]),
   ("HTMLOptionElement", ["option"]),
   ("HTMLOutputElement", ["output"]),
   ("HTMLParagraphElement", ["p"]),
   ("HTMLPictureElement", ["picture"]),
   ("HTMLPreElement", ["pre"]),
   ("HTMLProgressElement", ["progress"]),
   ("HTMLQuoteElement", ["blockquote", "q"]),
   ("HTMLScriptElement", ["script"]),
   ("HTMLSelectElement", ["select"]),
   ("HTMLSlotElement", ["slot"]),
   ("HTMLSourceElement", ["source"]),
   ("HTMLSpanElement", ["span"]),
   ("HTMLStyleElement", ["style"]),
   ("HTMLTableCaptionElement", ["caption"]),
   ("HTMLTableCellElement", ["td", "th"]),
   ("HTMLTableColElement", ["col", "colgroup"]),
   ("HTMLTableElement", ["table"]),
   ("HTMLTableRowElement", ["tr"]),
   ("HTMLTableSectionElement", ["tbody", "tfoot", "thead"]),
   ("HTMLTemplateElement", ["template"]),
   ("HTMLTextAreaElement", ["textarea"]),
   ("HTMLTimeElement", ["time"]),
   ("HTMLTitleElement", ["title"]),
   ("HTMLTrackElement", ["track"]),
   ("HTMLUListElement", ["ul"]),
   ("HTMLVideoElement", ["video"])]

def elementTypes : List String :=
  fallbackElementType :: tagsOfElementTypes.map Prod.fst

def elementTypeOfTag (tag : String) : String :=
  match tagsOfElementTypes.find? fun row => row.2.contains tag with
  | some row => row.1
  | none => fallbackElementType

end HtmlIds
