import HtmlIds.Dom.Database
import HtmlIds.Dom.ElementType
import HtmlIds.Text.Pieces

namespace HtmlIds

namespace Bundled

def words (text : String) : List String :=
  ((pieces ' ' text.toList).filter (· ≠ [])).map String.ofList

structure MemberNames where
  properties : List String := []
  methods : List String := []

def MemberNames.members (names : MemberNames) : List Member :=
  (names.properties.flatMap words).map (⟨·, .property⟩) ++
    (names.methods.flatMap words).map (⟨·, .method⟩)

def elementMembers : MemberNames where
  properties := ["ATTRIBUTE_NODE CDATA_SECTION_NODE COMMENT_NODE DOCUMENT_FRAGMENT_NODE DOCUMENT_NODE",
     "DOCUMENT_POSITION_CONTAINED_BY DOCUMENT_POSITION_CONTAINS DOCUMENT_POSITION_DISCONNECTED",
     "DOCUMENT_POSITION_FOLLOWING DOCUMENT_POSITION_IMPLEMENTATION_SPECIFIC",
     "DOCUMENT_POSITION_PRECEDING DOCUMENT_TYPE_NODE ELEMENT_NODE ENTITY_NODE",
     "ENTITY_REFERENCE_NODE NOTATION_NODE PROCESSING_INSTRUCTION_NODE TEXT_NODE accessKey",
     "accessKeyLabel ariaAtomic ariaAutoComplete ariaBusy ariaChecked ariaColCount ariaColIndex",
     "ariaCurrent ariaDisabled ariaExpanded ariaHasPopup ariaHidden ariaLabel ariaLevel ariaLive",
     "ariaModal ariaMultiLine ariaMultiSelectable ariaOrientation ariaPlaceholder ariaPressed",
     "ariaReadOnly ariaRequired ariaRoleDescription ariaRowCount ariaRowIndex ariaSelected",
     "ariaSort ariaValueMax ariaValueMin ariaValueNow ariaValueText assignedSlot attributes",
     "autocapitalize autofocus baseURI childElementCount childNodes children classList className",
     "clientHeight clientLeft clientTop clientWidth contentEditable dataset dir draggable",
     "enterKeyHint firstChild firstElementChild hidden id inert innerHTML innerText inputMode",
     "isConnected isContentEditable lang lastChild lastElementChild localName namespaceURI",
     "nextElementSibling nextSibling nodeName nodeType nodeValue nonce offsetHeight offsetLeft",
     "offsetParent offsetTop offsetWidth onabort onanimationend onanimationstart onauxclick",
     "onbeforeinput onblur oncancel oncanplay onchange onclick onclose oncontextmenu oncopy oncut",
     "ondblclick ondrag ondragend ondragenter ondragleave ondragover ondragstart ondrop",
     "ondurationchange onended onerror onfocus onfocusin onfocusout onformdata onfullscreenchange",
     "onfullscreenerror oninput oninvalid onkeydown onkeypress onkeyup onload onloadeddata",
     "onloadedmetadata onloadstart onmousedown onmouseenter onmouseleave onmousemove onmouseout",
     "onmouseover onmouseup onpaste onpause onplay onplaying onpointercancel onpointerdown",
     "onpointerenter onpointerleave onpointermove onpointerout onpointerup onprogress onreset",
     "onresize onscroll onscrollend onselect onsubmit ontoggle ontransitionend onwheel outerHTML",
     "outerText ownerDocument parentElement parentNode part popover prefix previousElementSibling",
     "previousSibling role scrollHeight scrollLeft scrollTop scrollWidth shadowRoot slot",
     "spellcheck style tabIndex tagName textContent title translate"]
  methods := ["addEventListener after animate append appendChild attachInternals attachShadow before blur",
     "checkVisibility click cloneNode closest compareDocumentPosition computedStyleMap contains",
     "dispatchEvent focus getAnimations getAttribute getAttributeNS getAttributeNames",
     "getAttributeNode getAttributeNodeNS getBoundingClientRect getClientRects",
     "getElementsByClassName getElementsByTagName getElementsByTagNameNS getRootNode hasAttribute",
     "hasAttributeNS hasAttributes hasChildNodes hasPointerCapture hidePopover",
     "insertAdjacentElement insertAdjacentHTML insertAdjacentText insertBefore isDefaultNamespace",
     "isEqualNode isSameNode lookupNamespaceURI lookupPrefix matches normalize prepend",
     "querySelector querySelectorAll releasePointerCapture remove removeAttribute",
     "removeAttributeNS removeAttributeNode removeChild removeEventListener replaceChild",
     "replaceChildren replaceWith requestFullscreen requestPointerLock scroll scrollBy",
     "scrollIntoView scrollTo setAttribute setAttributeNS setAttributeNode setAttributeNodeNS",
     "setPointerCapture showPopover toggleAttribute togglePopover webkitMatchesSelector"]

def mediaMembers : MemberNames where
  properties := ["HAVE_CURRENT_DATA HAVE_ENOUGH_DATA HAVE_FUTURE_DATA HAVE_METADATA HAVE_NOTHING NETWORK_EMPTY",
     "NETWORK_IDLE NETWORK_LOADING NETWORK_NO_SOURCE autoplay buffered controls crossOrigin",
     "currentSrc currentTime defaultMuted defaultPlaybackRate disableRemotePlayback duration ended",
     "error loop mediaKeys muted networkState onencrypted onwaitingforkey paused playbackRate",
     "played preload preservesPitch readyState remote seekable seeking sinkId src srcObject",
     "textTracks volume"]
  methods := ["addTextTrack canPlayType fastSeek load pause play setMediaKeys setSinkId"]

def ownMembers : List (String × MemberNames) :=
  [("HTMLAnchorElement",
    { properties := ["charset coords download hash host hostname href origin password pathname ping port protocol",
         "referrerPolicy rel relList rev search shape target text type username"] }),
   ("HTMLAreaElement",
    { properties := ["alt coords download hash host hostname href noHref origin password pathname ping port",
         "protocol referrerPolicy rel relList search shape target username"] }),
   ("HTMLAudioElement", mediaMembers),
   ("HTMLBaseElement",
    { properties := ["href target"] }),
   ("HTMLBodyElement",
    { properties := ["aLink background bgColor link onafterprint onbeforeprint onbeforeunload onhashchange",
         "onlanguagechange onmessage onoffline ononline onpagehide onpageshow onpopstate onstorage",
         "onunload text vLink"] }),
   ("HTMLBRElement",
    { properties := ["clear"] }),
   ("HTMLButtonElement",
    { properties := ["disabled form formAction formEnctype formMethod formNoValidate formTarget labels name",
         "popoverTargetAction popoverTargetElement type validationMessage validity value willValidate"]
      methods := ["checkValidity reportValidity setCustomValidity"] }),
   ("HTMLCanvasElement",
    { properties := ["height width"]
      methods := ["captureStream getContext toBlob toDataURL transferControlToOffscreen"] }),
   ("HTMLDataElement",
    { properties := ["value"] }),
   ("HTMLDataListElement",
    { properties := ["options"] }),
   ("HTMLDetailsElement",
    { properties := ["name open"] }),
   ("HTMLDialogElement",
    { properties := ["open returnValue"]
      methods := ["close requestClose show showModal"] }),
   ("HTMLDivElement",
    { properties := ["align"] }),
   ("HTMLDListElement",
    { properties := ["compact"] }),
   ("HTMLEmbedElement",
    { properties := ["align height name src type width"]
      methods := ["getSVGDocument"] }),
   ("HTMLFieldSetElement",
    { properties := ["disabled elements form name type validationMessage validity willValidate"]
      methods := ["checkValidity reportValidity setCustomValidity"] }),
   ("HTMLFormElement",
    { properties := ["acceptCharset action autocomplete elements encoding enctype length method name noValidate",
         "rel relList target"]
      methods := ["checkValidity reportValidity requestSubmit reset submit"] }),
   ("HTMLHeadingElement",
    { properties := ["align"] }),
   ("HTMLHRElement",
    { properties := ["align color noShade size width"] }),
   ("HTMLHtmlElement",
    { properties := ["version"] }),
   ("HTMLIFrameElement",
    { properties := ["align allow allowFullscreen contentDocument contentWindow frameBorder height loading",
         "longDesc marginHeight marginWidth name referrerPolicy sandbox scrolling src srcdoc width"]
      methods := ["getSVGDocument"] }),
   ("HTMLImageElement",
    { properties := ["align alt border complete crossOrigin currentSrc decoding fetchPriority height hspace isMap",
         "loading longDesc lowsrc name naturalHeight naturalWidth referrerPolicy sizes src srcset",
         "useMap vspace width x y"]
      methods := ["decode"] }),
   ("HTMLInputElement",
    { properties := ["accept align alt autocomplete capture checked defaultChecked defaultValue dirName disabled",
         "files form formAction formEnctype formMethod formNoValidate formTarget height indeterminate",
         "labels list max maxLength min minLength multiple name pattern placeholder",
         "popoverTargetAction popoverTargetElement readOnly required selectionDirection selectionEnd",
         "selectionStart size src step type useMap validationMessage validity value valueAsDate",
         "valueAsNumber webkitEntries webkitdirectory width willValidate"]
      methods := ["checkValidity reportValidity select setCustomValidity setRangeText setSelectionRange",
         "showPicker stepDown stepUp"] }),
   ("HTMLLabelElement",
    { properties := ["control form htmlFor"] }),
   ("HTMLLegendElement",
    { properties := ["align form"] }),
   ("HTMLLIElement",
    { properties := ["type value"] }),
   ("HTMLLinkElement",
    { properties := ["as blocking charset crossOrigin disabled fetchPriority href hreflang imageSizes imageSrcset",
         "integrity media referrerPolicy rel relList rev sheet sizes target type"] }),
   ("HTMLMapElement",
    { properties := ["areas name"] }),
   ("HTMLMenuElement",
    { properties := ["compact"] }),
   ("HTMLMetaElement",
    { properties := ["content httpEquiv media name scheme"] }),
   ("HTMLMeterElement",
    { properties := ["high labels low max min optimum value"] }),
   ("HTMLModElement",
    { properties := ["cite dateTime"] }),
   ("HTMLObjectElement",
    { properties := ["align archive border code codeBase codeType contentDocument contentWindow data declare form",
         "height hspace name standby type useMap validationMessage validity vspace width willValidate"]
      methods := ["checkValidity getSVGDocument reportValidity setCustomValidity"] }),
   ("HTMLOListElement",
    { properties := ["compact reversed start type"] }),
   ("HTMLOptGroupElement",
    { properties := ["disabled label"] }),
   ("HTMLOptionElement",
    { properties := ["defaultSelected disabled form index label selected text value"] }),
   ("HTMLOutputElement",
    { properties := ["defaultValue form htmlFor labels name type validationMessage validity value willValidate"]
      methods := ["checkValidity reportValidity setCustomValidity"] }),
   ("HTMLParagraphElement",
    { properties := ["align"] }),
   ("HTMLPreElement",
    { properties := ["width"] }),
   ("HTMLProgressElement",
    { properties := ["labels max position value"] }),
   ("HTMLQuoteElement",
    { properties := ["cite"] }),
   ("HTMLScriptElement",
    { properties := ["async blocking charset crossOrigin defer event fetchPriority htmlFor integrity noModule",
         "referrerPolicy src text type"] }),
   ("HTMLSelectElement",
    { properties := ["autocomplete disabled form labels length multiple name options required selectedIndex",
         "selectedOptions size type validationMessage validity value willValidate"]
      methods := ["add checkValidity item namedItem reportValidity setCustomValidity showPicker"] }),
   ("HTMLSlotElement",
    { properties := ["name"]
      methods := ["assign assignedElements assignedNodes"] }),
   ("HTMLSourceElement",
    { properties := ["height media sizes src srcset type width"] }),
   ("HTMLStyleElement",
    { properties := ["blocking disabled media sheet type"] }),
   ("HTMLTableCaptionElement",
    { properties := ["align"] }),
   ("HTMLTableCellElement",
    { properties := ["abbr align axis bgColor cellIndex ch chOff colSpan headers height noWrap rowSpan scope",
         "vAlign width"] }),
   ("HTMLTableColElement",
    { properties := ["align ch chOff span vAlign width"] }),
   ("HTMLTableElement",
    { properties := ["align bgColor border caption cellPadding cellSpacing frame rows rules summary tBodies tFoot",
         "tHead width"]
      methods := ["createCaption createTBody createTFoot createTHead deleteCaption deleteRow deleteTFoot",
         "deleteTHead insertRow"] }),
   ("HTMLTableRowElement",
    { properties := ["align bgColor cells ch chOff rowIndex sectionRowIndex vAlign"]
      methods := ["deleteCell insertCell"] }),
   ("HTMLTableSectionElement",
    { properties := ["align ch chOff rows vAlign"]
      methods := ["deleteRow insertRow"] }),
   ("HTMLTemplateElement",
    { properties := ["content shadowRootClonable shadowRootDelegatesFocus shadowRootMode shadowRootSerializable"] }),
   ("HTMLTextAreaElement",
    { properties := ["autocomplete cols defaultValue dirName disabled form labels maxLength minLength name",
         "placeholder readOnly required rows selectionDirection selectionEnd selectionStart textLength",
         "type validationMessage validity value willValidate wrap"]
      methods := ["checkValidity reportValidity select setCustomValidity setRangeText setSelectionRange"] }),
   ("HTMLTimeElement",
    { properties := ["dateTime"] }),
   ("HTMLTitleElement",
    { properties := ["text"] }),
   ("HTMLTrackElement",
    { properties := ["ERROR LOADED LOADING NONE default kind label readyState src srclang track"] }),
   ("HTMLUListElement",
    { properties := ["compact type"] }),
   ("HTMLVideoElement", mediaMembers),
   ("HTMLVideoElement",
    { properties := ["disablePictureInPicture height onenterpictureinpicture onleavepictureinpicture playsInline",
         "poster videoHeight videoWidth width"]
      methods := ["cancelVideoFrameCallback getVideoPlaybackQuality requestPictureInPicture",
         "requestVideoFrameCallback"] })]

def membersOfType (type : String) : List Member :=
  let own := ownMembers.filter fun row => row.1 = type
  (elementMembers.members ++ own.flatMap fun row => row.2.members).mergeSort
    fun a b => a.name ≤ b.name

end Bundled

def bundledDatabase : Database :=
  OrderedMap.ofList (elementTypes.map fun type => (type, Bundled.membersOfType type))

end HtmlIds
